import Nachos.Basic

/-!
# The command line

The arguments of a run are read twice, by `main` and by the constructor of the kernel. Each loop
looks for its own, takes the operands that belong to them, and passes over everything else, one word
at a time.
-/

namespace Nachos

namespace Main

/-- A minus sign and letters. -/
def opt (letters : List Char) : List Byte := 0x2d :: letters.map fun c ↦ .ofNat 8 c.toNat

/-- What `main` finds in the arguments. -/
structure Flags where
  debugArg : List Byte := []
  userProgName : Option (List Byte) := none
  threadTestFlag : Bool := false
  consoleTestFlag : Bool := false
  networkTestFlag : Bool := false
  copyUnixFileName : Option (List Byte) := none
  copyNachosFileName : Option (List Byte) := none
  printFileName : Option (List Byte) := none
  removeFileName : Option (List Byte) := none
  dirListFlag : Bool := false
  dumpFlag : Bool := false

/-- The loop of `main` over the arguments. An argument that is missing fails an assertion. -/
def parse : Flags → List (List Byte) → Option Flags
  | f, [] => some f
  | f, arg :: rest =>
    if arg = opt ['d'] then
      match rest with
      | [] => none
      | x :: rest => parse { f with debugArg := x } rest
    else if arg = opt ['x'] then
      match rest with
      | [] => none
      | x :: rest => parse { f with userProgName := some x } rest
    else if arg = opt ['K'] then parse { f with threadTestFlag := true } rest
    else if arg = opt ['C'] then parse { f with consoleTestFlag := true } rest
    else if arg = opt ['N'] then parse { f with networkTestFlag := true } rest
    else if arg = opt ['c', 'p'] then
      match rest with
      | x :: y :: rest =>
        parse { f with copyUnixFileName := some x, copyNachosFileName := some y } rest
      | _ => none
    else if arg = opt ['p'] then
      match rest with
      | [] => none
      | x :: rest => parse { f with printFileName := some x } rest
    else if arg = opt ['r'] then
      match rest with
      | [] => none
      | x :: rest => parse { f with removeFileName := some x } rest
    else if arg = opt ['l'] then parse { f with dirListFlag := true } rest
    else if arg = opt ['D'] then parse { f with dumpFlag := true } rest
    -- `-z` and `-u` print a text, and everything else is for the kernel
    else parse f rest

/-- What the constructor of `Kernel` finds in them. Numbers are kept as their text. -/
structure KernelFlags where
  randomSlice : Option (List Byte) := none
  debugUserProg : Bool := false
  consoleIn : Option (List Byte) := none
  consoleOut : Option (List Byte) := none
  formatFlag : Bool := false
  reliability : Option (List Byte) := none
  hostName : Option (List Byte) := none

/-- The loop of `Kernel::Kernel` over the arguments. -/
def KernelFlags.parse : KernelFlags → List (List Byte) → Option KernelFlags
  | f, [] => some f
  | f, arg :: rest =>
    if arg = opt ['r', 's'] then
      match rest with
      | [] => none
      | x :: rest => parse { f with randomSlice := some x } rest
    else if arg = opt ['s'] then parse { f with debugUserProg := true } rest
    else if arg = opt ['c', 'i'] then
      match rest with
      | [] => none
      | x :: rest => parse { f with consoleIn := some x } rest
    else if arg = opt ['c', 'o'] then
      match rest with
      | [] => none
      | x :: rest => parse { f with consoleOut := some x } rest
    else if arg = opt ['f'] then parse { f with formatFlag := true } rest
    else if arg = opt ['n'] then
      match rest with
      | [] => none
      | x :: rest => parse { f with reliability := some x } rest
    else if arg = opt ['m'] then
      match rest with
      | [] => none
      | x :: rest => parse { f with hostName := some x } rest
    else parse f rest

/-! ## Complete arguments -/

/-- An argument with its operands, of `main` or of the kernel. -/
inductive Switch where
  | debug (arg : List Byte)
  | copyright
  | userProg (name : List Byte)
  | threadTest
  | consoleTest
  | networkTest
  | copy (source target : List Byte)
  | print (name : List Byte)
  | remove (name : List Byte)
  | dirList
  | dump
  | usage
  | randomSlice (seed : List Byte)
  | debugUserProg
  | consoleIn (name : List Byte)
  | consoleOut (name : List Byte)
  | format
  | reliability (value : List Byte)
  | hostName (number : List Byte)

namespace Switch

/-- The letters after the minus sign. -/
def letters : Switch → List Char
  | debug _ => ['d']
  | copyright => ['z']
  | userProg _ => ['x']
  | threadTest => ['K']
  | consoleTest => ['C']
  | networkTest => ['N']
  | copy _ _ => ['c', 'p']
  | print _ => ['p']
  | remove _ => ['r']
  | dirList => ['l']
  | dump => ['D']
  | usage => ['u']
  | randomSlice _ => ['r', 's']
  | debugUserProg => ['s']
  | consoleIn _ => ['c', 'i']
  | consoleOut _ => ['c', 'o']
  | format => ['f']
  | reliability _ => ['n']
  | hostName _ => ['m']

def operands : Switch → List (List Byte)
  | debug arg => [arg]
  | userProg name => [name]
  | copy source target => [source, target]
  | print name => [name]
  | remove name => [name]
  | randomSlice seed => [seed]
  | consoleIn name => [name]
  | consoleOut name => [name]
  | reliability value => [value]
  | hostName number => [number]
  | _ => []

/-- The arguments as they are typed. -/
def words (s : Switch) : List (List Byte) := opt s.letters :: s.operands

end Switch

/-- What `main` notes. -/
def Flags.note (f : Flags) : Switch → Flags
  | .debug arg => { f with debugArg := arg }
  | .userProg name => { f with userProgName := some name }
  | .threadTest => { f with threadTestFlag := true }
  | .consoleTest => { f with consoleTestFlag := true }
  | .networkTest => { f with networkTestFlag := true }
  | .copy source target =>
    { f with copyUnixFileName := some source, copyNachosFileName := some target }
  | .print name => { f with printFileName := some name }
  | .remove name => { f with removeFileName := some name }
  | .dirList => { f with dirListFlag := true }
  | .dump => { f with dumpFlag := true }
  | _ => f

/-- What the kernel notes. -/
def KernelFlags.note (f : KernelFlags) : Switch → KernelFlags
  | .randomSlice seed => { f with randomSlice := some seed }
  | .debugUserProg => { f with debugUserProg := true }
  | .consoleIn name => { f with consoleIn := some name }
  | .consoleOut name => { f with consoleOut := some name }
  | .format => { f with formatFlag := true }
  | .reliability value => { f with reliability := some value }
  | .hostName number => { f with hostName := some number }
  | _ => f

/-- A word that is no argument of its own: it does not start with a minus sign. -/
def Plain (w : List Byte) : Prop := w.head? ≠ some 0x2d

theorem Plain.ne_opt {w : List Byte} (h : Plain w) (letters : List Char) : w ≠ opt letters := by
  rintro rfl
  exact h rfl

theorem parse_plain {w : List Byte} (h : Plain w) (f : Flags) (rest : List (List Byte)) :
    parse f (w :: rest) = parse f rest := by
  rw [parse.eq_def]
  simp only [if_neg (h.ne_opt _)]

theorem KernelFlags.parse_plain {w : List Byte} (h : Plain w) (f : KernelFlags)
    (rest : List (List Byte)) : KernelFlags.parse f (w :: rest) = KernelFlags.parse f rest := by
  rw [KernelFlags.parse.eq_def]
  simp only [if_neg (h.ne_opt _)]

/-- `main` takes a complete argument in one step. -/
theorem parse_words (s : Switch) (hplain : ∀ w ∈ s.operands, Plain w) (f : Flags)
    (rest : List (List Byte)) : parse f (s.words ++ rest) = parse (f.note s) rest := by
  rw [Switch.words, List.cons_append, parse.eq_def]
  cases s with
  -- the operand of the kernel's argument is looked at and passed over
  | randomSlice w => exact parse_plain (hplain w (List.mem_singleton_self w)) f rest
  | consoleIn w => exact parse_plain (hplain w (List.mem_singleton_self w)) f rest
  | consoleOut w => exact parse_plain (hplain w (List.mem_singleton_self w)) f rest
  | reliability w => exact parse_plain (hplain w (List.mem_singleton_self w)) f rest
  | hostName w => exact parse_plain (hplain w (List.mem_singleton_self w)) f rest
  | _ => rfl

/-- So does the kernel. -/
theorem KernelFlags.parse_words (s : Switch) (hplain : ∀ w ∈ s.operands, Plain w)
    (f : KernelFlags) (rest : List (List Byte)) :
    KernelFlags.parse f (s.words ++ rest) = KernelFlags.parse (f.note s) rest := by
  rw [Switch.words, List.cons_append, KernelFlags.parse.eq_def]
  cases s with
  | debug w => exact KernelFlags.parse_plain (hplain w (List.mem_singleton_self w)) f rest
  | userProg w => exact KernelFlags.parse_plain (hplain w (List.mem_singleton_self w)) f rest
  | print w => exact KernelFlags.parse_plain (hplain w (List.mem_singleton_self w)) f rest
  | remove w => exact KernelFlags.parse_plain (hplain w (List.mem_singleton_self w)) f rest
  | copy source target =>
    refine (KernelFlags.parse_plain (hplain source List.mem_cons_self) f _).trans ?_
    exact KernelFlags.parse_plain (hplain target (by simp [Switch.operands])) f rest
  | _ => rfl

/-- **Two readers of one command line.** Of complete arguments, in any order and number, whose
operands do not start with a minus sign, `main` and the kernel each note their own and pass over the
other's; the last of several counts. -/
theorem parse_commandLine (switches : List Switch)
    (hplain : ∀ s ∈ switches, ∀ w ∈ s.operands, Plain w) (f : Flags) (kf : KernelFlags) :
    parse f (switches.flatMap Switch.words) = some (switches.foldl Flags.note f) ∧
      KernelFlags.parse kf (switches.flatMap Switch.words) =
        some (switches.foldl KernelFlags.note kf) := by
  induction switches generalizing f kf with
  | nil => exact ⟨rfl, rfl⟩
  | cons s switches ih =>
    have hs := hplain s List.mem_cons_self
    rw [List.flatMap_cons, parse_words s hs, KernelFlags.parse_words s hs]
    exact ih (fun s' hs' ↦ hplain s' (List.mem_cons_of_mem s hs')) _ _

theorem parse_commandLine_copy :
    parse {} [opt ['c', 'p'], [0x61], [0x62], opt ['f']] =
        some { copyUnixFileName := some [0x61], copyNachosFileName := some [0x62] } ∧
      KernelFlags.parse {} [opt ['c', 'p'], [0x61], [0x62], opt ['f']] =
        some { formatFlag := true } :=
  parse_commandLine [.copy [0x61] [0x62], .format] (by simp [Switch.operands, Plain]) {} {}

/-- An operand that starts with a minus sign is taken for an argument as well: this copies a file
called `-f`, and formats the disk first. -/
example : (KernelFlags.parse {} [opt ['c', 'p'], opt ['f'], [0x62]]).map (·.formatFlag) =
    some true := rfl

end Main

end Nachos
