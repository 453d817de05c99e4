import Mathlib.Data.List.DropRight
import UpsServer.Basic
import UpsServer.Lib.Split

open Split

namespace UpsServer

structure ServerConfig where
  roomCount : UInt32 := 0
  maxPlayerCount : UInt32 := 0
  serverIp : Str := []
  serverPort : UInt16 := 0
deriving DecidableEq

namespace ServerConfig

def NEWLINE : Delimiter Char := .singleton '\n'

/-- The lines that `std::getline` reads one after another. -/
def getlines (text : Str) : List Str :=
  (breakAll NEWLINE text).closed ++
    if (breakAll NEWLINE text).rest = [] then [] else [(breakAll NEWLINE text).rest]

/-- Trims whitespace from both ends. -/
def trim (s : Str) : Str := (s.dropWhile isSpace).rdropWhile isSpace

/-- Goes over the characters of a line: whether the left-hand side is still being
read, and both sides so far. -/
def processLine (line : Str) : Bool × Str × Str :=
  line.foldl (fun (isLhs, lhs, rhs) c =>
    if c = ':' then (false, lhs, rhs)
    else if isLhs then (isLhs, lhs ++ [c], rhs)
    else (isLhs, lhs, rhs ++ [c])) (true, [], [])

/-- One turn of the loop of `parseServerConfig`. The numbers are converted to the
types of their fields. -/
def parseLine (config : ServerConfig) (line : Str) : Except Fault ServerConfig :=
  -- Continue if line is whitespace only
  if line.all isSpace then .ok config
  else
    let (isLhs, lhs, rhs) := processLine line
    if isLhs then
      .error (.runtimeError
        ("ServerConfig failed to parse file: missing \":\" delimiter in some line" ++ String.ofList lhs))
    else
      let lhs := trim lhs
      let rhs := trim rhs
      if lhs = "roomCount".toList then do
        let roomCount ← stoi rhs
        pure { config with roomCount := UInt32.ofInt roomCount }
      else if lhs = "maxPlayerCount".toList then do
        let maxPlayerCount ← stoi rhs
        pure { config with maxPlayerCount := UInt32.ofInt maxPlayerCount }
      else if lhs = "serverIp".toList then pure { config with serverIp := rhs }
      else if lhs = "serverPort".toList then do
        let serverPort ← stoi rhs
        pure { config with serverPort := UInt16.ofInt serverPort }
      else
        .error (.runtimeError
          ("parseServerConfig failed to parse file: it contains invalid left hand side argument - " ++
            String.ofList lhs))

/-- The text of the file, or `none` if it cannot be opened. -/
def parseServerConfig (configFilePath : String) (file : Option Str) : Except Fault ServerConfig :=
  match file with
  | none => .error (.runtimeError ("parseServerConfig failed to open the file: " ++ configFilePath))
  | some text => (getlines text).foldlM parseLine {}

example : (parseServerConfig "server_config.txt"
    (some "roomCount:30\n maxPlayerCount : 60\nserverIp:127.0.0.1\n\nroomCount:3:1".toList)).toOption =
      some ⟨31, 60, "127.0.0.1".toList, 0⟩ := by
  decide +kernel

/-- The trimmed left-hand side of a line. -/
def leftHandSide (line : Str) : Str := trim (line.takeWhile (· ≠ ':'))

/-- The trimmed right-hand side of a line, in which further `:` are left out. -/
def rightHandSide (line : Str) : Str := trim ((line.dropWhile (· ≠ ':')).filter (· ≠ ':'))

/-- The right-hand side of the last line that gives `key`. -/
def lastGiven (key : Str) (lines : List Str) : Option Str :=
  (lines.filter (leftHandSide · = key)).getLast?.map rightHandSide

/-- The number that `stoi` reads there, 0 if no line gives `key`. -/
def number (key : Str) (lines : List Str) : Int :=
  (lastGiven key lines).elim 0 fun rhs => (stoi rhs).toOption.getD 0

/-- The keys that are followed by a number. -/
def numberKeys : List Str := ["roomCount".toList, "maxPlayerCount".toList, "serverPort".toList]

/-- A line that does not stop the parser. -/
def LineOk (line : Str) : Prop :=
  line.all isSpace = true ∨ ':' ∈ line ∧
    (leftHandSide line = "serverIp".toList ∨
      leftHandSide line ∈ numberKeys ∧ (stoi (rightHandSide line)).toOption.isSome = true)

instance (line : Str) : Decidable (LineOk line) := inferInstanceAs (Decidable (_ ∨ _ ∧ (_ ∨ _ ∧ _)))

/-- What the parser makes of lines that do not stop it. -/
def configOf (lines : List Str) : ServerConfig where
  roomCount := UInt32.ofInt (number "roomCount".toList lines)
  maxPlayerCount := UInt32.ofInt (number "maxPlayerCount".toList lines)
  serverIp := (lastGiven "serverIp".toList lines).getD []
  serverPort := UInt16.ofInt (number "serverPort".toList lines)

private theorem foldl_right (line lhs rhs : Str) :
    line.foldl (fun (acc : Bool × Str × Str) c =>
      if c = ':' then (false, acc.2.1, acc.2.2)
      else if acc.1 then (acc.1, acc.2.1 ++ [c], acc.2.2)
      else (acc.1, acc.2.1, acc.2.2 ++ [c])) (false, lhs, rhs) =
      (false, lhs, rhs ++ line.filter (· ≠ ':')) := by
  induction line generalizing rhs with
  | nil => simp
  | cons c line ih =>
    rw [List.foldl_cons]
    by_cases hc : c = ':'
    · simp [hc, ih]
    · simp [hc, ih]

private theorem processLine_eq (line : Str) :
    processLine line = (decide (':' ∉ line), line.takeWhile (· ≠ ':'),
      (line.dropWhile (· ≠ ':')).filter (· ≠ ':')) := by
  have hleft : ∀ (line lhs : Str), line.foldl (fun (acc : Bool × Str × Str) c =>
      if c = ':' then (false, acc.2.1, acc.2.2)
      else if acc.1 then (acc.1, acc.2.1 ++ [c], acc.2.2)
      else (acc.1, acc.2.1, acc.2.2 ++ [c])) (true, lhs, []) =
      (decide (':' ∉ line), lhs ++ line.takeWhile (· ≠ ':'),
        (line.dropWhile (· ≠ ':')).filter (· ≠ ':')) := by
    intro line
    induction line with
    | nil => simp
    | cons c line ih =>
      intro lhs
      rw [List.foldl_cons]
      by_cases hc : c = ':'
      · subst hc
        simp [foldl_right]
      · simp [hc, ih, Ne.symm hc]
  exact hleft line []

private theorem lastGiven_append (key : Str) (lines : List Str) (line : Str) :
    lastGiven key (lines ++ [line]) =
      if leftHandSide line = key then some (rightHandSide line) else lastGiven key lines := by
  rw [lastGiven, List.filter_append]
  by_cases hkey : leftHandSide line = key
  · rw [if_pos hkey, List.filter_cons_of_pos (by simpa using hkey), List.filter_nil,
      List.getLast?_concat, Option.map_some]
  · rw [if_neg hkey, List.filter_cons_of_neg (by simpa using hkey), List.filter_nil,
      List.append_nil, lastGiven]

private theorem number_append (key : Str) (lines : List Str) (line : Str) :
    number key (lines ++ [line]) =
      if leftHandSide line = key then (stoi (rightHandSide line)).toOption.getD 0
      else number key lines := by
  rw [number, lastGiven_append]
  split <;> rfl

/-- A line gives one of the fields, and leaves the others alone. -/
theorem configOf_append (lines : List Str) (line : Str) :
    configOf (lines ++ [line]) =
      { roomCount := if leftHandSide line = "roomCount".toList then
          UInt32.ofInt ((stoi (rightHandSide line)).toOption.getD 0) else (configOf lines).roomCount
        maxPlayerCount := if leftHandSide line = "maxPlayerCount".toList then
          UInt32.ofInt ((stoi (rightHandSide line)).toOption.getD 0)
          else (configOf lines).maxPlayerCount
        serverIp := if leftHandSide line = "serverIp".toList then rightHandSide line
          else (configOf lines).serverIp
        serverPort := if leftHandSide line = "serverPort".toList then
          UInt16.ofInt ((stoi (rightHandSide line)).toOption.getD 0)
          else (configOf lines).serverPort } := by
  rw [configOf, number_append, number_append, number_append, lastGiven_append]
  congr 1 <;> split <;> rfl

private theorem leftHandSide_of_blank {line : Str} (h : line.all isSpace = true) : leftHandSide line = [] := by
  have hall : ∀ c ∈ line.takeWhile (· ≠ ':'), isSpace c = true := fun c hc =>
    List.all_eq_true.mp h c ((List.takeWhile_prefix _).subset hc)
  rw [leftHandSide, trim, List.dropWhile_eq_nil_iff.mpr hall]
  rfl

private theorem parseLine_of_mem {line : Str} (hblank : ¬ line.all isSpace = true) (hcolon : ':' ∈ line)
    (config : ServerConfig) :
    parseLine config line =
      if leftHandSide line = "roomCount".toList then
        stoi (rightHandSide line) >>= fun n => .ok { config with roomCount := UInt32.ofInt n }
      else if leftHandSide line = "maxPlayerCount".toList then
        stoi (rightHandSide line) >>= fun n => .ok { config with maxPlayerCount := UInt32.ofInt n }
      else if leftHandSide line = "serverIp".toList then
        .ok { config with serverIp := rightHandSide line }
      else if leftHandSide line = "serverPort".toList then
        stoi (rightHandSide line) >>= fun n => .ok { config with serverPort := UInt16.ofInt n }
      else
        .error (.runtimeError
          ("parseServerConfig failed to parse file: it contains invalid left hand side argument - " ++
            String.ofList (leftHandSide line))) := by
  have hleft : decide (':' ∉ line) = false := decide_eq_false (not_not.mpr hcolon)
  rw [parseLine, if_neg hblank, processLine_eq, hleft]
  rfl

/-- A key that is followed by a number needs one that `stoi` can read. -/
theorem toOption_number {line : Str} (hblank : ¬ line.all isSpace = true) (hcolon : ':' ∈ line)
    (hkey : leftHandSide line ∈ numberKeys) (f : Int → ServerConfig) :
    (stoi (rightHandSide line) >>= fun n => .ok (f n)).toOption =
      if LineOk line then some (f ((stoi (rightHandSide line)).toOption.getD 0)) else none := by
  have hip : leftHandSide line ≠ "serverIp".toList := by
    intro heq
    rw [heq] at hkey
    exact absurd hkey (by decide)
  have hok : LineOk line ↔ (stoi (rightHandSide line)).toOption.isSome = true := by
    simp only [LineOk, hblank, hcolon, hip, hkey, false_or, true_and, Bool.false_eq_true]
  cases hstoi : stoi (rightHandSide line) with
  | error e =>
    rw [if_neg (by rw [hok, hstoi]; exact Bool.false_ne_true)]
    rfl
  | ok n =>
    rw [if_pos (by rw [hok, hstoi]; rfl)]
    rfl

/-- A line stops the parser, or gives its part of what all lines together give. -/
theorem parseLine_configOf (lines : List Str) (line : Str) :
    (parseLine (configOf lines) line).toOption =
      if LineOk line then some (configOf (lines ++ [line])) else none := by
  rw [configOf_append]
  by_cases hblank : line.all isSpace = true
  · rw [if_pos (.inl hblank), parseLine, if_pos hblank, leftHandSide_of_blank hblank]
    rfl
  by_cases hcolon : ':' ∈ line
  · rw [parseLine_of_mem hblank hcolon]
    by_cases hrooms : leftHandSide line = "roomCount".toList
    · rw [if_pos hrooms, toOption_number hblank hcolon (by rw [hrooms]; decide), hrooms]
      rfl
    by_cases hplayers : leftHandSide line = "maxPlayerCount".toList
    · rw [if_neg hrooms, if_pos hplayers,
        toOption_number hblank hcolon (by rw [hplayers]; decide), hplayers]
      rfl
    by_cases hip : leftHandSide line = "serverIp".toList
    · rw [if_neg hrooms, if_neg hplayers, if_pos hip, if_pos (.inr ⟨hcolon, .inl hip⟩), hip]
      rfl
    by_cases hport : leftHandSide line = "serverPort".toList
    · rw [if_neg hrooms, if_neg hplayers, if_neg hip, if_pos hport,
        toOption_number hblank hcolon (by rw [hport]; decide), hport]
      rfl
    · rw [if_neg hrooms, if_neg hplayers, if_neg hip, if_neg hport, if_neg]
      · rfl
      · rintro (hall | ⟨_, hkey | ⟨hkey, _⟩⟩)
        · exact hblank hall
        · exact hip hkey
        · simp only [numberKeys, List.mem_cons, List.not_mem_nil, or_false] at hkey
          rcases hkey with hkey | hkey | hkey
          · exact hrooms hkey
          · exact hplayers hkey
          · exact hport hkey
  · have hleft : decide (':' ∉ line) = true := decide_eq_true hcolon
    rw [parseLine, if_neg hblank, processLine_eq, hleft, if_neg]
    · rfl
    · rintro (hall | ⟨hmem, _⟩)
      · exact hblank hall
      · exact hcolon hmem

/-- All lines are read, or one of them stops the parser. -/
theorem foldlM_parseLine (lines : List Str) :
    (lines.foldlM parseLine {}).toOption =
      if ∀ line ∈ lines, LineOk line then some (configOf lines) else none := by
  induction lines using List.reverseRecOn with
  | nil =>
    rw [if_pos (List.forall_mem_nil _)]
    rfl
  | append_singleton lines line ih =>
    rw [List.foldlM_append, toOption_bind, ih]
    by_cases hlines : ∀ line ∈ lines, LineOk line
    · have hall : (∀ line' ∈ lines ++ [line], LineOk line') ↔ LineOk line := by
        rw [List.forall_mem_append, List.forall_mem_singleton, and_iff_right hlines]
      rw [if_pos hlines, Option.bind_some, List.foldlM_cons]
      simp only [List.foldlM_nil, bind_pure, parseLine_configOf, hall]
    · rw [if_neg hlines, if_neg fun hall => hlines (List.forall_mem_append.mp hall).1]
      rfl

private theorem number_bounds (key : Str) (lines : List Str) :
    -2147483648 ≤ number key lines ∧ number key lines ≤ 2147483647 := by
  unfold number
  cases lastGiven key lines with
  | none => decide
  | some rhs =>
    rw [Option.elim_some]
    cases hstoi : stoi rhs with
    | error e => exact (by decide : (-2147483648 : Int) ≤ 0 ∧ (0 : Int) ≤ 2147483647)
    | ok n => exact stoi_bounds hstoi

/-- A count is kept unless it is negative. -/
theorem toNat_ofInt_count {n : Int} (h : n ≤ 2147483647) :
    ((UInt32.ofInt n).toNat : Int) = n ↔ 0 ≤ n := by
  rw [UInt32.ofInt, UInt32.toNat_ofNat']
  omega

private theorem toNat_ofInt_port (n : Int) : ((UInt16.ofInt n).toNat : Int) = n ↔ 0 ≤ n ∧ n ≤ 65535 := by
  rw [UInt16.ofInt, UInt16.toNat_ofNat']
  omega

/-- If the parser returns, the fields hold the numbers that the text gives; it
throws if a count is negative or the port is out of range. -/
def NumbersKept (configFilePath : String) (text : Str) : Prop :=
  (∀ config, parseServerConfig configFilePath (some text) = .ok config →
    (config.roomCount.toNat : Int) = number "roomCount".toList (getlines text) ∧
    (config.maxPlayerCount.toNat : Int) = number "maxPlayerCount".toList (getlines text) ∧
    (config.serverPort.toNat : Int) = number "serverPort".toList (getlines text)) ∧
  ((number "roomCount".toList (getlines text) < 0 ∨
      number "maxPlayerCount".toList (getlines text) < 0 ∨
      number "serverPort".toList (getlines text) < 0 ∨
      65535 < number "serverPort".toList (getlines text)) →
    ∃ e, parseServerConfig configFilePath (some text) = .error e)

/-- The numbers that lines give fit into the fields. -/
def InRange (lines : List Str) : Prop :=
  0 ≤ number "roomCount".toList lines ∧ 0 ≤ number "maxPlayerCount".toList lines ∧
    0 ≤ number "serverPort".toList lines ∧ number "serverPort".toList lines ≤ 65535

private theorem configOf_kept_iff (lines : List Str) :
    ((configOf lines).roomCount.toNat : Int) = number "roomCount".toList lines ∧
        ((configOf lines).maxPlayerCount.toNat : Int) = number "maxPlayerCount".toList lines ∧
        ((configOf lines).serverPort.toNat : Int) = number "serverPort".toList lines ↔
      InRange lines := by
  have hrooms := number_bounds "roomCount".toList lines
  have hplayers := number_bounds "maxPlayerCount".toList lines
  exact and_congr (toNat_ofInt_count hrooms.2)
    (and_congr (toNat_ofInt_count hplayers.2) (toNat_ofInt_port _))

/-- The numbers of a text are kept exactly when they fit into the fields, or a line
stops the parser. -/
theorem numbersKept_iff (configFilePath : String) (text : Str) :
    NumbersKept configFilePath text ↔
      ((∀ line ∈ getlines text, LineOk line) → InRange (getlines text)) := by
  have hparse := foldlM_parseLine (getlines text)
  by_cases hlines : ∀ line ∈ getlines text, LineOk line
  · rw [if_pos hlines, toOption_eq_some] at hparse
    rw [forall_prop_of_true hlines, ← configOf_kept_iff, NumbersKept, parseServerConfig, hparse]
    constructor
    · exact fun hkept => hkept.1 _ rfl
    · intro hkept
      refine ⟨fun config hconfig => by rwa [← Except.ok.inj hconfig], fun hbad => ?_⟩
      have hrange := (configOf_kept_iff _).mp hkept
      unfold InRange at hrange
      omega
  · rw [if_neg hlines, toOption_eq_none] at hparse
    refine iff_of_true ⟨fun config hconfig => ?_, fun _ => hparse⟩ fun hall => (hlines hall).elim
    obtain ⟨e, herror⟩ := hparse
    cases herror.symm.trans hconfig

/-- A count of -1 asks for 4294967295 rooms, and port 70000 becomes port 4464. -/
theorem not_numbersKept_wrapped :
    (parseServerConfig "server_config.txt"
      (some "roomCount:-1\nmaxPlayerCount:60\nserverIp:127.0.0.1\nserverPort:70000".toList)).toOption =
        some ⟨4294967295, 60, "127.0.0.1".toList, 4464⟩ ∧
      ¬ NumbersKept "server_config.txt"
        "roomCount:-1\nmaxPlayerCount:60\nserverIp:127.0.0.1\nserverPort:70000".toList := by
  have hparse : (parseServerConfig "server_config.txt"
      (some "roomCount:-1\nmaxPlayerCount:60\nserverIp:127.0.0.1\nserverPort:70000".toList)).toOption =
        some ⟨4294967295, 60, "127.0.0.1".toList, 4464⟩ := by
    decide +kernel
  refine ⟨hparse, fun hkept => ?_⟩
  obtain ⟨hrooms, _⟩ := hkept.1 _ (toOption_eq_some.mp hparse)
  revert hrooms
  decide +kernel

end ServerConfig

end UpsServer
