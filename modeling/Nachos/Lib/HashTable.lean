import Mathlib.Data.List.Basic
import Nachos.Basic
import Nachos.Lib.LinkedList

/-!
# Hash tables

A `HashTable<Key,T>` is an array of buckets, each a `List<T>`, and an item is filed in the bucket
that the hash of its key selects. `Insert` makes the table four times as large when it holds three
items for each bucket, and moves every item. In a table that is in order each item is in the bucket
of its key; appending to the buckets and `ReHash` keep it in order, and its checks pass.

An item takes at least eight bytes of a 32-bit address space, so the number of items is no concern
of `int` arithmetic. The number of buckets is one only below `2 ^ 31`.
-/

namespace Nachos

def initialBuckets : ℕ := 4
def resizeRatio : ℤ := 3
def increaseSizeBy : ℕ := 4

structure HashTable (T : Type) where
  buckets : ℕ → LinkedList T
  numBuckets : ℕ
  numItems : ℤ

namespace HashTable

variable {Key T : Type} [DecidableEq Key] [DecidableEq T] (getKey : T → Key) (hash : Key → Word)

/-- `HashTable<Key,T>::InitBuckets`. -/
def initBuckets (t : HashTable T) (sz : ℕ) : HashTable T :=
  { t with buckets := fun _ ↦ .empty, numBuckets := sz }

/-- `HashTable<Key,T>::HashTable`. -/
def create : HashTable T := initBuckets ⟨fun _ ↦ .empty, 0, 0⟩ initialBuckets

/-- `HashTable<Key,T>::HashValue`. The remainder of two `unsigned` numbers is put into an `int`. -/
def hashValue (t : HashTable T) (key : Key) : Option ℕ := do
  let result := (hash key).toNat % t.numBuckets
  guard (result < 2 ^ 31 ∧ result < t.numBuckets)
  some result

/-- `HashTable<Key,T>::FindInBucket`. -/
def findInBucket (t : HashTable T) (bucket : ℕ) (key : Key) : Option T :=
  (t.buckets bucket).chain.find? (key = getKey ·)

/-- `HashTable<Key,T>::Find`: the item, if there is one; no answer when an assertion fails. -/
def find (t : HashTable T) (key : Key) : Option (Option T) := do
  let bucket ← t.hashValue hash key
  some (t.findInBucket getKey bucket key)

/-- `HashTable<Key,T>::IsInTable`. -/
def isInTable (t : HashTable T) (key : Key) : Option Bool := do
  let item ← t.find getKey hash key
  some item.isSome

/-- The body of the loop of `SanityCheck`, on bucket `i`. -/
def checkBucket (t : HashTable T) (numFound : ℤ) (i : ℕ) : Option ℤ := do
  (t.buckets i).sanityCheck
  (t.buckets i).chain.forM fun item ↦ do
    let value ← t.hashValue hash (getKey item)
    guard (i = value)
  some (numFound + (t.buckets i).numInList)

/-- `HashTable<Key,T>::SanityCheck`. -/
def sanityCheck (t : HashTable T) : Option Unit := do
  let numFound ← (List.range t.numBuckets).foldlM (t.checkBucket getKey hash) 0
  guard (t.numItems = numFound)

/-- `buckets[HashValue(getKey(item))]->Append(item)`. -/
def appendToBucket (t : HashTable T) (item : T) : Option (HashTable T) := do
  let bucket ← t.hashValue hash (getKey item)
  let l ← (t.buckets bucket).append item
  some { t with buckets := Function.update t.buckets bucket l }

omit [DecidableEq T] in
private theorem length_of_removeFront {l l' : LinkedList T} {item : T}
    (h : l.removeFront = some (item, l')) : l'.chain.length < l.chain.length := by
  rw [LinkedList.removeFront] at h
  obtain ⟨-, -, h⟩ := Option.bind_eq_some_iff.mp h
  obtain ⟨thing, hthing, h⟩ := Option.bind_eq_some_iff.mp h
  obtain ⟨rest, hchain⟩ := List.head?_eq_some_iff.mp hthing
  rw [hchain] at h ⊢
  split at h <;> cases h <;> simp

/-- The inner loop of `ReHash`: an old bucket is emptied from the front. -/
def moveBucket (t : HashTable T) (old : LinkedList T) : Option (HashTable T) :=
  if old.isEmpty then some t
  else
    match _hfront : old.removeFront with
    | none => none
    | some (item, old') => do
      let t ← t.appendToBucket getKey hash item
      t.moveBucket old'
termination_by old.chain.length
decreasing_by exact length_of_removeFront _hfront

/-- `HashTable<Key,T>::ReHash`. -/
def reHash (t : HashTable T) : Option (HashTable T) := do
  t.sanityCheck getKey hash
  let t' ← (List.range t.numBuckets).foldlM (fun t' i ↦ t'.moveBucket getKey hash (t.buckets i))
    (t.initBuckets (t.numBuckets * increaseSizeBy))
  t'.sanityCheck getKey hash
  some t'

/-- The test of `Insert` for a table that has become too full. -/
def growIfFull (t : HashTable T) : Option (HashTable T) :=
  if t.numItems / t.numBuckets ≥ resizeRatio then t.reHash getKey hash else some t

/-- `HashTable<Key,T>::Insert`. -/
def insert (t : HashTable T) (item : T) : Option (HashTable T) := do
  let key := getKey item
  let present ← t.isInTable getKey hash key
  guard (present = false)
  let t ← t.growIfFull getKey hash
  let t ← t.appendToBucket getKey hash item
  let t := { t with numItems := t.numItems + 1 }
  let present ← t.isInTable getKey hash key
  guard (present = true)
  some t

/-- The number of buckets after an `Insert`. -/
def numBucketsFor (t : HashTable T) : ℕ :=
  if t.numItems / t.numBuckets ≥ resizeRatio then t.numBuckets * increaseSizeBy else t.numBuckets

/-- `HashTable<Key,T>::Remove`. -/
def remove (t : HashTable T) (key : Key) : Option (T × HashTable T) := do
  let bucket ← t.hashValue hash key
  let item ← t.findInBucket getKey bucket key
  let l ← (t.buckets bucket).remove item
  let t := { t with buckets := Function.update t.buckets bucket l, numItems := t.numItems - 1 }
  let present ← t.isInTable getKey hash key
  guard (present = false)
  some (item, t)

/-- `HashTable<Key,T>::FindNextFullBucket`. -/
def findNextFullBucket (t : HashTable T) (bucket : ℕ) : ℕ :=
  if bucket < t.numBuckets then
    if (t.buckets bucket).isEmpty then t.findNextFullBucket (bucket + 1) else bucket
  else bucket
termination_by t.numBuckets - bucket

end HashTable

/-- `HashIterator<Key,T>`. A `ListIterator` is the part of the list that is left to visit. -/
structure HashIterator (T : Type) where
  bucket : ℕ
  bucketIter : Option (List T)

namespace HashIterator

variable {T : Type} (table : HashTable T)

/-- The iterator goes to a bucket, if that is one of the table. -/
def enter (bucket : ℕ) : HashIterator T where
  bucket := bucket
  bucketIter := if bucket < table.numBuckets then some (table.buckets bucket).chain else none

/-- `HashIterator<Key,T>::HashIterator`. -/
def create : HashIterator T := enter table (table.findNextFullBucket 0)

/-- `HashIterator<Key,T>::IsDone`. -/
def isDone (iter : HashIterator T) : Bool := iter.bucket == table.numBuckets

/-- `HashIterator<Key,T>::Item`. -/
def item (iter : HashIterator T) : Option T := do
  guard (iter.isDone table = false)
  let rest ← iter.bucketIter
  rest.head?

/-- `HashIterator<Key,T>::Next`. -/
def next (iter : HashIterator T) : Option (HashIterator T) :=
  match iter.bucketIter with
  | none | some [] => none
  | some [_] => some (enter table (table.findNextFullBucket (iter.bucket + 1)))
  | some (_ :: rest) => some { iter with bucketIter := some rest }

/-- The items of `n` rounds of `for (; !iter->IsDone(); iter->Next())`. -/
def visit : ℕ → HashIterator T → Option (List T × HashIterator T)
  | 0, iter => some ([], iter)
  | n + 1, iter => do
    let first ← iter.item table
    let iter ← iter.next table
    let (rest, iter) ← visit n iter
    some (first :: rest, iter)

end HashIterator

namespace HashTable

variable {Key T : Type}

/-! ## Buckets and items -/

/-- The items of the table, bucket after bucket. -/
def items (t : HashTable T) : List T :=
  (List.range t.numBuckets).flatMap fun i ↦ (t.buckets i).chain

theorem mem_items {t : HashTable T} {x : T} :
    x ∈ t.items ↔ ∃ i < t.numBuckets, x ∈ (t.buckets i).chain := by
  simp [items]

/-- Replacing a bucket replaces its items among all items. -/
theorem perm_items_update (t : HashTable T) (l : LinkedList T) {b : ℕ} (hb : b < t.numBuckets)
    (numItems : ℤ) :
    ((⟨Function.update t.buckets b l, t.numBuckets, numItems⟩ : HashTable T).items
      ++ (t.buckets b).chain).Perm (t.items ++ l.chain) := by
  simp only [items]
  generalize t.numBuckets = n at hb ⊢
  induction n with
  | zero => exact absurd hb (Nat.not_lt_zero b)
  | succ n ih =>
    rw [List.range_succ, List.flatMap_append, List.flatMap_append, List.flatMap_singleton,
      List.flatMap_singleton]
    by_cases hlast : b = n
    · subst hlast
      have hothers : ((List.range b).flatMap fun i ↦ (Function.update t.buckets b l i).chain)
          = (List.range b).flatMap fun i ↦ (t.buckets i).chain := by
        refine List.flatMap_congr fun i hi ↦ ?_
        rw [Function.update_of_ne (Nat.ne_of_lt (List.mem_range.mp hi))]
      rw [hothers, Function.update_self, List.append_assoc, List.append_assoc]
      exact List.perm_append_comm.append_left _
    · rw [Function.update_of_ne (Ne.symm hlast)]
      -- the last bucket stands between the two on both sides
      have hswap : ∀ xs ys zs : List T, (xs ++ ys ++ zs).Perm (xs ++ zs ++ ys) := by
        intro xs ys zs
        rw [List.append_assoc, List.append_assoc]
        exact List.perm_append_comm.append_left xs
      exact (hswap _ _ _).trans (((ih (by omega)).append_right _).trans (hswap _ _ _))

variable (getKey : T → Key) (hash : Key → Word)

/-- The table is in order: its buckets are lists that were built properly, and each item is in the
bucket its key hashes to. -/
structure Filed (t : HashTable T) : Prop where
  pos : 0 < t.numBuckets
  small : t.numBuckets < 2 ^ 31
  linked : ∀ i < t.numBuckets, t.buckets i = .ofList (t.buckets i).chain
  hashed : ∀ i < t.numBuckets, ∀ x ∈ (t.buckets i).chain,
    (hash (getKey x)).toNat % t.numBuckets = i

section filed

variable {getKey : T → Key} {hash : Key → Word} {t : HashTable T} (h : t.Filed getKey hash)
include h

theorem Filed.bucket_lt (key : Key) : (hash key).toNat % t.numBuckets < t.numBuckets :=
  Nat.mod_lt _ h.pos

theorem Filed.hashValue (key : Key) :
    t.hashValue hash key = some ((hash key).toNat % t.numBuckets) := by
  have hlt := h.bucket_lt key
  have hsmall := h.small
  rw [HashTable.hashValue, guard_of_true ⟨by omega, hlt⟩]
  rfl

/-- An item of the table is in the bucket of its key. -/
theorem Filed.mem_items_iff {x : T} :
    x ∈ t.items ↔ x ∈ (t.buckets ((hash (getKey x)).toNat % t.numBuckets)).chain := by
  rw [mem_items]
  constructor
  · rintro ⟨i, hi, hx⟩
    rw [h.hashed i hi x hx]
    exact hx
  · intro hx
    exact ⟨_, h.bucket_lt _, hx⟩

/-- Exchanging a bucket for a list of items that hash to it leaves the table in order. -/
theorem Filed.update {b : ℕ} {xs : List T}
    (hxs : ∀ x ∈ xs, (hash (getKey x)).toNat % t.numBuckets = b) (numItems : ℤ) :
    (⟨Function.update t.buckets b (.ofList xs), t.numBuckets, numItems⟩ :
      HashTable T).Filed getKey hash := by
  refine ⟨h.pos, h.small, fun i hi ↦ ?_, fun i hi x hx ↦ ?_⟩
  · by_cases hb : i = b
    · simp only [hb, Function.update_self, LinkedList.ofList_chain]
    · simp only [Function.update_of_ne hb]
      exact h.linked i hi
  · by_cases hb : i = b
    · simp only [hb, Function.update_self, LinkedList.ofList_chain] at hx
      exact (hxs x hx).trans hb.symm
    · simp only [Function.update_of_ne hb] at hx
      exact h.hashed i hi x hx

end filed

/-! ## Appending to the buckets -/

section append

variable [DecidableEq T] {getKey : T → Key} {hash : Key → Word}

theorem Filed.appendToBucket {t : HashTable T} (h : t.Filed getKey hash) {item : T}
    (hnew : item ∉ t.items) :
    ∃ t', t.appendToBucket getKey hash item = some t' ∧ t'.Filed getKey hash ∧
      t'.items.Perm (item :: t.items) ∧ t'.numBuckets = t.numBuckets ∧
      t'.numItems = t.numItems := by
  have hb := h.bucket_lt (getKey item)
  have hvalue := h.hashValue (getKey item)
  have hmem : item ∉ _ := mt h.mem_items_iff.mpr hnew
  generalize hbucket : (hash (getKey item)).toNat % t.numBuckets = b at hb hvalue hmem
  have happend : (t.buckets b).append item = some (.ofList ((t.buckets b).chain ++ [item])) := by
    rw [h.linked b hb, LinkedList.append_ofList, LinkedList.ofList_chain,
      listAppend_of_not_mem hmem, Option.map_some]
  have hrun : t.appendToBucket getKey hash item = some { t with
      buckets := Function.update t.buckets b (.ofList ((t.buckets b).chain ++ [item])) } := by
    rw [HashTable.appendToBucket, hvalue, Option.bind_eq_bind, Option.bind_some, happend]
    rfl
  refine ⟨_, hrun, h.update ?_ _, ?_, rfl, rfl⟩
  · intro x hx
    rcases List.mem_append.mp hx with hx | hx
    · exact h.hashed b hb x hx
    · rw [List.mem_singleton.mp hx, hbucket]
  · have hperm := perm_items_update t (.ofList ((t.buckets b).chain ++ [item])) hb t.numItems
    rw [LinkedList.ofList_chain, ← List.append_assoc] at hperm
    have hswap : (t.items ++ (t.buckets b).chain ++ [item]).Perm
        (item :: t.items ++ (t.buckets b).chain) := List.perm_append_singleton item _
    exact (List.perm_append_right_iff _).mp (hperm.trans hswap)

/-- Filing one item after the other. -/
theorem Filed.appendAll {t : HashTable T} (h : t.Filed getKey hash) {xs : List T}
    (hnodup : (xs ++ t.items).Nodup) :
    ∃ t', xs.foldlM (fun t item ↦ t.appendToBucket getKey hash item) t = some t' ∧
      t'.Filed getKey hash ∧ t'.items.Perm (xs ++ t.items) ∧ t'.numBuckets = t.numBuckets ∧
      t'.numItems = t.numItems := by
  induction xs generalizing t with
  | nil => exact ⟨t, rfl, h, List.Perm.refl _, rfl, rfl⟩
  | cons item xs ih =>
    rw [List.cons_append, List.nodup_cons] at hnodup
    obtain ⟨hnew, hrest⟩ := hnodup
    obtain ⟨t₁, hrun₁, h₁, hperm₁, hbuckets₁, hitems₁⟩ :=
      h.appendToBucket fun hmem ↦ hnew (List.mem_append_right _ hmem)
    have hmiddle : (xs ++ t₁.items).Perm (item :: (xs ++ t.items)) :=
      (hperm₁.append_left xs).trans List.perm_middle
    obtain ⟨t₂, hrun₂, h₂, hperm₂, hbuckets₂, hitems₂⟩ := ih h₁
      (hmiddle.nodup_iff.mpr (List.nodup_cons.mpr ⟨hnew, hrest⟩))
    refine ⟨t₂, ?_, h₂, hperm₂.trans hmiddle, hbuckets₂.trans hbuckets₁,
      hitems₂.trans hitems₁⟩
    rw [List.foldlM_cons, hrun₁]
    exact hrun₂

/-- Emptying an old bucket files its items in their order. -/
private theorem moveBucket_ofList (t : HashTable T) (xs : List T) :
    t.moveBucket getKey hash (.ofList xs)
      = xs.foldlM (fun t item ↦ t.appendToBucket getKey hash item) t := by
  induction xs generalizing t with
  | nil => rw [moveBucket.eq_def]; rfl
  | cons item xs ih =>
    rw [moveBucket.eq_def, List.foldlM_cons, LinkedList.isEmpty_ofList, List.isEmpty_cons,
      if_neg Bool.false_ne_true]
    have hfront := LinkedList.removeFront_ofList (item :: xs)
    split
    · next hnone =>
      rw [hnone] at hfront
      cases hfront
    · next item' old' hsome =>
      rw [hsome] at hfront
      cases hfront
      exact congrArg _ (funext ih)

/-- The loop of `ReHash` over the first `n` old buckets. -/
private theorem moveBuckets_eq {old : ℕ → LinkedList T} {n : ℕ}
    (hlinked : ∀ i < n, old i = .ofList (old i).chain) (t : HashTable T) :
    (List.range n).foldlM (fun t i ↦ t.moveBucket getKey hash (old i)) t
      = ((List.range n).flatMap fun i ↦ (old i).chain).foldlM
        (fun t item ↦ t.appendToBucket getKey hash item) t := by
  induction n with
  | zero => rfl
  | succ n ih =>
    rw [List.range_succ, List.foldlM_append, ih fun i hi ↦ hlinked i (by omega),
      List.flatMap_append, List.foldlM_append]
    refine bind_congr fun t' ↦ ?_
    rw [List.flatMap_singleton, ← moveBucket_ofList, ← hlinked n (by omega)]
    exact bind_pure _

end append

/-! ## The checks -/

section checks

variable {getKey : T → Key} {hash : Key → Word} {t : HashTable T} (h : t.Filed getKey hash)
include h

theorem Filed.checkBucket {i : ℕ} (hi : i < t.numBuckets) (numFound : ℤ) :
    t.checkBucket getKey hash numFound i = some (numFound + (t.buckets i).chain.length) := by
  have hlist := LinkedList.sanityCheck_ofList (t.buckets i).chain
  have hnum := LinkedList.ofList_numInList (t.buckets i).chain
  have hall := h.hashed i hi
  rw [← h.linked i hi] at hlist hnum
  have hitems : (t.buckets i).chain.forM (fun item ↦ do
      let value ← t.hashValue hash (getKey item)
      guard (i = value)) = some () := by
    generalize (t.buckets i).chain = xs at hall
    induction xs with
    | nil => rfl
    | cons x xs ih =>
      have hx : (do
          let value ← t.hashValue hash (getKey x)
          guard (i = value)) = some () := by
        rw [h.hashValue]
        exact guard_of_true (hall x List.mem_cons_self).symm
      rw [List.forM_eq_forM, List.forM_cons, hx]
      exact ih fun y hy ↦ hall y (List.mem_cons_of_mem x hy)
  rw [HashTable.checkBucket, hlist, hitems, hnum]
  rfl

theorem Filed.sanityCheck (hcount : t.numItems = t.items.length) :
    t.sanityCheck getKey hash = some () := by
  have hloop : ∀ n ≤ t.numBuckets, (List.range n).foldlM (t.checkBucket getKey hash) 0
      = some (((List.range n).flatMap fun i ↦ (t.buckets i).chain).length : ℤ) := by
    intro n hn
    induction n with
    | zero => rfl
    | succ n ih =>
      rw [List.range_succ, List.foldlM_append, ih (by omega), Option.bind_eq_bind,
        Option.bind_some, List.foldlM_cons, h.checkBucket hn]
      simp
  rw [HashTable.sanityCheck, hloop _ (Nat.le_refl _)]
  exact guard_of_true hcount

/-- `ReHash` keeps the items and makes the table four times as large. -/
theorem Filed.reHash [DecidableEq T] (hcount : t.numItems = t.items.length)
    (hnodup : t.items.Nodup) (hsize : t.numBuckets * increaseSizeBy < 2 ^ 31) :
    ∃ t', t.reHash getKey hash = some t' ∧ t'.Filed getKey hash ∧ t'.items.Perm t.items ∧
      t'.numItems = t.numItems := by
  have hempty : (t.initBuckets (t.numBuckets * increaseSizeBy)).items = [] := by
    simp [items, initBuckets, LinkedList.empty]
  have hinit : (t.initBuckets (t.numBuckets * increaseSizeBy)).Filed getKey hash :=
    ⟨Nat.mul_pos h.pos (by decide), hsize, fun _ _ ↦ rfl,
      fun _ _ x hx ↦ absurd hx List.not_mem_nil⟩
  have hnodup' :
      (t.items ++ (t.initBuckets (t.numBuckets * increaseSizeBy)).items).Nodup := by
    rwa [hempty, List.append_nil]
  obtain ⟨t', hrun, h', hperm, -, hitems⟩ := hinit.appendAll hnodup'
  rw [hempty, List.append_nil] at hperm
  have hcount' : t'.numItems = t'.items.length := by
    rw [hperm.length_eq, hitems]
    exact hcount
  refine ⟨t', ?_, h', hperm, hitems⟩
  rw [HashTable.reHash, h.sanityCheck hcount, moveBuckets_eq h.linked, ← items]
  simp only [Option.bind_eq_bind, Option.bind_some]
  rw [hrun, Option.bind_some, h'.sanityCheck hcount', Option.bind_some]

end checks

end HashTable

end Nachos
