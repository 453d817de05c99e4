import UpsServer.Basic
import UpsServer.Lib.Split
import UpsServer.Lib.UnorderedMap

namespace UpsServer

inductive MethodName where
  -- Fundamental methods
  | CONNECTED_OK
  | REQ_ACCEPTED
  | REQ_DENIED
  | TERMINATE_CONNECTION
  -- Placeholder values
  | PARSING_FAILED
  | UNINITIALIZED
  -- Idle user's room methods
  | ENTER_USERNAME
  | GET_ROOM_LIST
  | JOIN_GAME
  -- Game methods
  | GAME_IDLE
  | GAME_LEAVE
  | GAME_COMMAND
  | GAME_STATE
  | GAME_PING
deriving DecidableEq, Repr

def MethodNameTable : List (Str × MethodName) :=
  [("CONNECTED_OK".toList, .CONNECTED_OK),
   ("REQ_ACCEPTED".toList, .REQ_ACCEPTED),
   ("REQ_DENIED".toList, .REQ_DENIED),
   ("TERMINATE_CONNECTION".toList, .TERMINATE_CONNECTION),
   ("PARSING_FAILED".toList, .PARSING_FAILED),
   ("UNINITIALIZED".toList, .UNINITIALIZED),
   ("ENTER_USERNAME".toList, .ENTER_USERNAME),
   ("GET_ROOM_LIST".toList, .GET_ROOM_LIST),
   ("JOIN_GAME".toList, .JOIN_GAME),
   ("GAME_IDLE".toList, .GAME_IDLE),
   ("GAME_LEAVE".toList, .GAME_LEAVE),
   ("GAME_COMMAND".toList, .GAME_COMMAND),
   ("GAME_STATE".toList, .GAME_STATE),
   ("GAME_PING".toList, .GAME_PING)]

def parseMethodName (name : Str) : MethodName :=
  match MethodNameTable.lookup name with
  | some method => method
  | none => .PARSING_FAILED

/-- Looks a method up in the reversed table; every method has one name there. -/
def serializeMethodName (name : MethodName) : Except Fault Str :=
  match (MethodNameTable.map Prod.swap).lookup name with
  | some str => .ok str
  | none => .error (.runtimeError
      "serializeMethodName: Error - Entered method name was not found. Is it contained in MethodNameTable?")

structure ProtocolData where
  method : MethodName
  data : UnorderedMap Str Str
deriving DecidableEq

namespace ProtocolData

def hasField (msg : ProtocolData) (name : Str) : Bool := (msg.data.get? name).isSome

def getField (msg : ProtocolData) (name : Str) : Except Fault Str :=
  match msg.data.get? name with
  | some value => .ok value
  | none => .error (.outOfRange "unordered_map::at")

end ProtocolData

def newProtocolMessage (method : MethodName) (dataFields : List (Str × Str)) : ProtocolData :=
  ⟨method, dataFields.foldl (fun data pair =>
    if (data.get? pair.1).isSome then data else data.set pair.1 pair.2) ∅⟩

def END_SEQUENCE : Split.Delimiter Char := ⟨['\r', '\n', '\r', '\n'], by decide⟩
def LINE_DELIMITER : Split.Delimiter Char := ⟨[':'], by decide⟩
def END_OF_LINE : Split.Delimiter Char := ⟨['\n'], by decide⟩

/-- The text of a message whose fields are visited in the order `fields`. -/
def serializeProtocolData (method : MethodName) (fields : List (Str × Str)) : Except Fault Str := do
  let name ← serializeMethodName method
  let attributes :=
    fields.flatMap fun field => field.1 ++ LINE_DELIMITER.text ++ field.2 ++ END_OF_LINE.text
  pure (name ++ END_OF_LINE.text ++ attributes ++ END_SEQUENCE.text)

/-- Items between braces, items and braced groups separated by commas. -/
def serializeObjectList (list : List (List Str)) : Str :=
  [','].intercalate (list.map fun line => '{' :: [','].intercalate line ++ ['}'])

/-- Every method has a name in the table, and the name parses back to it. -/
theorem serializeMethodName_ok (method : MethodName) :
    ∃ name, serializeMethodName method = .ok name ∧ parseMethodName name = method := by
  cases method <;> exact ⟨_, rfl, rfl⟩

/-- Names of methods contain neither line breaks nor separators. -/
theorem table_names_plain :
    ∀ name ∈ MethodNameTable.map Prod.fst, name ≠ [] ∧ name.length ≤ 31 ∧ '\n' ∉ name ∧
      '\r' ∉ name ∧ ':' ∉ name := by
  decide +kernel

theorem mem_table_of_serializeMethodName {method : MethodName} {name : Str}
    (h : serializeMethodName method = .ok name) : name ∈ MethodNameTable.map Prod.fst := by
  cases method <;> (injection h with h; subst h; decide +kernel)

end UpsServer
