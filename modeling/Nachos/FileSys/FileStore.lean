import Mathlib.Algebra.BigOperators.Group.Finset.Basic
import Nachos.FileSys.FileSystem
import Nachos.FileSys.NameMap

/-!
# What a file system is for

A file store keeps a list of bytes under each of finitely many keys, and hands out files that are
open: a key and a position. The length of a file is fixed when it is created. There is room for 20
files, and each of them takes one sector and one more for every 128 bytes it has, out of 1017. What
is in a new file is not promised.

Nothing here is about sectors in particular places, headers or bitmaps; those implement it.
-/

namespace Nachos

/-! ## Laying bytes over a list -/

section overlay

variable {α : Type} (l : List α) (p : ℕ) (new : List α)

/-- `new` laid over the list from place `p` on, as far as the list goes. -/
def overlay : List α := l.take p ++ new.take (l.length - p) ++ l.drop (p + new.length)

theorem length_overlay : (overlay l p new).length = l.length := by
  simp only [overlay, List.length_append, List.length_take, List.length_drop]
  omega

theorem getElem?_overlay (y : ℕ) : (overlay l p new)[y]? =
    if y < l.length ∧ p ≤ y ∧ y < p + new.length then new[y - p]? else l[y]? := by
  rw [overlay, List.append_assoc]
  by_cases hy : y < l.length
  · by_cases hlow : y < p
    · rw [List.getElem?_append_left (by simp only [List.length_take]; omega),
        List.getElem?_take_of_lt hlow, if_neg (by omega)]
    · rw [List.getElem?_append_right (by simp only [List.length_take]; omega), List.length_take,
        Nat.min_eq_left (by omega)]
      by_cases hhigh : y < p + new.length
      · rw [if_pos (by omega), List.getElem?_append_left (by simp only [List.length_take]; omega),
          List.getElem?_take_of_lt (by omega)]
      · rw [if_neg (by omega), List.getElem?_append_right (by simp only [List.length_take]; omega),
          List.length_take, Nat.min_eq_right (by omega), List.getElem?_drop]
        congr 1
        omega
  · rw [if_neg (by omega), List.getElem?_eq_none (Nat.not_lt.mp hy), List.getElem?_eq_none]
    simp only [List.length_append, List.length_take, List.length_drop]
    omega

/-- The list from its start to the end of what was laid over it. -/
theorem take_overlay (h : p + new.length ≤ l.length) :
    (overlay l p new).take (p + new.length) = l.take p ++ new := by
  have hnew : new.take (l.length - p) = new := List.take_of_length_le (by omega)
  have hlength : (l.take p ++ new).length = p + new.length := by
    rw [List.length_append, List.length_take, Nat.min_eq_left (by omega)]
  rw [overlay, hnew, ← hlength, List.take_left]

end overlay

/-! ## Files and the space they take -/

/-- The bytes that are kept under each key. -/
abbrev Files := Finmap fun _ : List Byte ↦ List Byte

/-- The sectors of a file of `n` bytes: one for its header, and its data. -/
def sectorsFor (n : ℕ) : ℕ := 1 + (n + 127) / 128

namespace Files

/-- The sectors that are taken. -/
def space (m : Files) : ℕ := ∑ c ∈ m.keys, sectorsFor ((m.lookup c).getD []).length

/-- The sectors there are: all but the headers and the data of the bitmap and of the directory. -/
def capacity : ℕ := 1017

/-- There is room for a new file under the key. -/
def Room (m : Files) (c : List Byte) (n : ℕ) : Prop :=
  c ∉ m ∧ m.keys.card < numDirEntries ∧ m.space + sectorsFor n ≤ capacity

instance (m : Files) (c : List Byte) (n : ℕ) : Decidable (m.Room c n) :=
  inferInstanceAs (Decidable (_ ∧ _))

/-- An empty file under the key, if there is room for one. -/
def ensure (m : Files) (c : List Byte) : Files := if m.Room c 0 then m.insert c [] else m

variable {m : Files} {c : List Byte} {b : List Byte}

private theorem keys_insert (m : Files) (c b : List Byte) :
    (m.insert c b).keys = insert c m.keys := by
  ext c'
  rw [Finmap.mem_keys, Finmap.mem_insert, Finset.mem_insert, Finmap.mem_keys]

/-- The space is that of the file and that of the others. -/
theorem space_insert (m : Files) (c b : List Byte) :
    space (m.insert c b) = space (m.erase c) + sectorsFor b.length := by
  have hkeys : (m.insert c b).keys = insert c (m.erase c).keys := by
    ext c'
    rw [keys_insert, Finmap.keys_erase]
    by_cases hc : c' = c <;> simp [hc]
  have hnew : c ∉ (m.erase c).keys := by
    rw [Finmap.keys_erase]
    exact Finset.notMem_erase c _
  rw [space, hkeys, Finset.sum_insert hnew, Finmap.lookup_insert, Option.getD_some, Nat.add_comm,
    space]
  congr 1
  refine Finset.sum_congr rfl fun c' hc' ↦ ?_
  have hne : c' ≠ c := fun heq ↦ hnew (heq ▸ hc')
  rw [Finmap.lookup_insert_of_ne m hne, Finmap.lookup_erase_ne hne]

theorem space_insert_new (hnew : c ∉ m) (b : List Byte) :
    space (m.insert c b) = space m + sectorsFor b.length := by
  have hsame : m.erase c = m := by
    refine Finmap.ext_lookup fun c' ↦ ?_
    by_cases hc : c' = c
    · rw [hc, Finmap.lookup_erase, Finmap.lookup_eq_none.mpr hnew]
    · rw [Finmap.lookup_erase_ne hc]
  rw [space_insert, hsame]

theorem space_erase (hb : m.lookup c = some b) :
    space (m.erase c) + sectorsFor b.length = space m := by
  have hsame : m.insert c b = m := by
    refine Finmap.ext_lookup fun c' ↦ ?_
    by_cases hc : c' = c
    · rw [hc, Finmap.lookup_insert, hb]
    · rw [Finmap.lookup_insert_of_ne m hc]
  rw [← space_insert, hsame]

theorem space_replace (hb : m.lookup c = some b) {b' : List Byte} (hlength : b'.length = b.length) :
    space (m.insert c b') = space m := by
  rw [space_insert, hlength, space_erase hb]

end Files

/-! ## Calls and answers -/

/-- A call to the file system, or to the file that was opened as number `i`. An `int` argument is
the word that holds it, and `junk` is the memory that `new` returns. -/
inductive FileCall where
  | create (junk : Garbage) (name : List Byte) (initialSize : Word)
  | openFile (junk : Garbage) (name : List Byte)
  | remove (junk : Garbage) (name : List Byte)
  | seek (i : ℕ) (position : Word)
  | read (i : ℕ) (junk : ℕ → Byte) (numBytes : Word)
  | write (i : ℕ) (junk : ℕ → Byte) (src : ℕ → Byte) (numBytes : Word)
  | readAt (i : ℕ) (junk : ℕ → Byte) (numBytes position : Word)
  | writeAt (i : ℕ) (junk : ℕ → Byte) (src : ℕ → Byte) (numBytes position : Word)
  | length (i : ℕ)
  | close (i : ℕ)
  /-- The machine is stopped and started again on the same disk. -/
  | reboot (junk : ℕ → Garbage)

inductive FileReply where
  | done
  | flag (success : Bool)
  | number (result : ℤ)
  /-- What a read returns, and the bytes it delivers. -/
  | data (result : ℤ) (bytes : List Byte)

/-- The first `n` bytes of a block of memory. -/
def bytesOf (src : ℕ → Byte) (n : ℕ) : List Byte := (List.range n).map src

@[simp] theorem length_bytesOf (src : ℕ → Byte) (n : ℕ) : (bytesOf src n).length = n := by
  simp [bytesOf]

theorem getElem?_bytesOf (src : ℕ → Byte) {n x : ℕ} (hx : x < n) :
    (bytesOf src n)[x]? = some (src x) := by
  simp [bytesOf, hx]

/-- A file that is open: its key, as long as it is there, and the position. -/
structure OpenedFile where
  key : Option (List Byte)
  position : ℤ

/-- The file under the key is gone. -/
def OpenedFile.lose (f : OpenedFile) (c : List Byte) : OpenedFile :=
  if f.key = some c then { f with key := none } else f

structure FileStore where
  files : Files
  opened : List OpenedFile

namespace FileStore

/-- The file opened as number `i` is there, under the key `c`, with the bytes `b`. -/
structure At (st : FileStore) (i : ℕ) (f : OpenedFile) (c b : List Byte) : Prop where
  opened : st.opened[i]? = some f
  key : f.key = some c
  lookup : st.files.lookup c = some b

/-- A request that a file of these bytes can be asked for: there is nothing to do, or it starts
inside the file and its last byte has an `int` for its position. -/
def Proper (b : List Byte) (numBytes position : ℤ) : Prop :=
  numBytes ≤ 0 ∨ (b.length : ℤ) ≤ position ∨ 0 ≤ position ∧ position + numBytes < 2 ^ 31

/-- The calls the store can be asked for. -/
def Legal (st : FileStore) : FileCall → Prop
  | .create _ _ initialSize => 0 ≤ initialSize.toInt ∧ initialSize.toInt ≤ maxFileSize
  | .openFile _ _ => True
  | .remove _ _ => True
  | .seek i _ => i < st.opened.length
  | .read i _ numBytes => ∃ f c b, st.At i f c b ∧ Proper b numBytes.toInt f.position
  | .write i _ _ numBytes => ∃ f c b, st.At i f c b ∧ Proper b numBytes.toInt f.position
  | .readAt i _ numBytes position =>
    ∃ f c b, st.At i f c b ∧ Proper b numBytes.toInt position.toInt
  | .writeAt i _ _ numBytes position =>
    ∃ f c b, st.At i f c b ∧ Proper b numBytes.toInt position.toInt
  | .length i => ∃ f c b, st.At i f c b
  | .close i => i < st.opened.length
  | .reboot _ => True

/-- The bytes a request reads. -/
def slice (b : List Byte) (numBytes position : ℤ) : List Byte :=
  (b.drop position.toNat).take numBytes.toNat

/-- The file opened as number `i` has moved on by `n` bytes. -/
def advance (st : FileStore) (i : ℕ) (f : OpenedFile) (n : ℕ) : FileStore :=
  { st with opened := st.opened.set i { f with position := f.position + n } }

/-- Bytes are written over those under a key. -/
def patch (st : FileStore) (c b : List Byte) (src : ℕ → Byte) (numBytes position : ℤ) : FileStore :=
  { st with files := st.files.insert c (overlay b position.toNat (bytesOf src numBytes.toNat)) }

/-- What a call does and how it is answered. A read is answered with the bytes there are from the
position on, a write changes these bytes and no others, and both return their number. -/
inductive Step (st : FileStore) : FileCall → FileReply → FileStore → Prop
  | created {junk : Garbage} {name : List Byte} {initialSize : Word} {b : List Byte}
      (hroom : st.files.Room (Directory.key name) initialSize.toInt.toNat)
      (hlength : b.length = initialSize.toInt.toNat) :
      Step st (.create junk name initialSize) (.flag true)
        { st with files := st.files.insert (Directory.key name) b }
  | refused {junk : Garbage} {name : List Byte} {initialSize : Word}
      (hroom : ¬st.files.Room (Directory.key name) initialSize.toInt.toNat) :
      Step st (.create junk name initialSize) (.flag false) st
  | opened {junk : Garbage} {name : List Byte} (hmem : Directory.key name ∈ st.files) :
      Step st (.openFile junk name) (.flag true)
        { st with opened := st.opened ++ [⟨some (Directory.key name), 0⟩] }
  | missing {junk : Garbage} {name : List Byte} (hmem : Directory.key name ∉ st.files) :
      Step st (.openFile junk name) (.flag false) st
  | removed {junk : Garbage} {name : List Byte} (hmem : Directory.key name ∈ st.files) :
      Step st (.remove junk name) (.flag true)
        ⟨st.files.erase (Directory.key name), st.opened.map (·.lose (Directory.key name))⟩
  | absent {junk : Garbage} {name : List Byte} (hmem : Directory.key name ∉ st.files) :
      Step st (.remove junk name) (.flag false) st
  | sought {i : ℕ} {position : Word} {f : OpenedFile} (hf : st.opened[i]? = some f) :
      Step st (.seek i position) .done
        { st with opened := st.opened.set i { f with position := position.toInt } }
  | read {i : ℕ} {junk : ℕ → Byte} {numBytes : Word} {f : OpenedFile} {c b data : List Byte}
      (hat : st.At i f c b) (hdata : data = slice b numBytes.toInt f.position) :
      Step st (.read i junk numBytes) (.data data.length data) (st.advance i f data.length)
  | written {i : ℕ} {junk src : ℕ → Byte} {numBytes : Word} {f : OpenedFile} {c b : List Byte}
      {n : ℕ} (hat : st.At i f c b) (hn : n = (slice b numBytes.toInt f.position).length) :
      Step st (.write i junk src numBytes) (.number n)
        ((st.patch c b src numBytes.toInt f.position).advance i f n)
  | readAt {i : ℕ} {junk : ℕ → Byte} {numBytes position : Word} {f : OpenedFile}
      {c b data : List Byte} (hat : st.At i f c b)
      (hdata : data = slice b numBytes.toInt position.toInt) :
      Step st (.readAt i junk numBytes position) (.data data.length data) st
  | writtenAt {i : ℕ} {junk src : ℕ → Byte} {numBytes position : Word} {f : OpenedFile}
      {c b : List Byte} {n : ℕ} (hat : st.At i f c b)
      (hn : n = (slice b numBytes.toInt position.toInt).length) :
      Step st (.writeAt i junk src numBytes position) (.number n)
        (st.patch c b src numBytes.toInt position.toInt)
  | length {i : ℕ} {f : OpenedFile} {c b : List Byte} (hat : st.At i f c b) :
      Step st (.length i) (.number b.length) st
  | closed {i : ℕ} : Step st (.close i) .done { st with opened := st.opened.eraseIdx i }
  | rebooted {junk : ℕ → Garbage} :
      Step st (.reboot junk) .done
        ⟨(st.files.ensure FileSystem.stdinName).ensure FileSystem.stdoutName, []⟩

/-- The store of a new system: two empty files. -/
def start : FileStore :=
  ⟨(Files.ensure ∅ FileSystem.stdinName).ensure FileSystem.stdoutName, []⟩

end FileStore

end Nachos
