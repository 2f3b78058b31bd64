import Mathlib.Data.Finmap
import Nachos.Lib.HashTable
import Nachos.Program.Run
import Nachos.Program.Simulation

/-!
# A hash table is a finite map

The items of a `HashTable` are the entries of a finite map, whose keys `getKey` reads from the
items. `Insert` and `Remove` insert and erase, `Find` looks a key up, and a `HashIterator` goes
through the entries.
-/

namespace Nachos

open Program

namespace HashTable

variable {Key T : Type} (getKey : T → Key) (hash : Key → Word)

/-! ## The finite map of a table -/

/-- What a table holds: items under their keys. -/
abbrev Contents (Key T : Type) := Finmap fun _ : Key ↦ T

/-- An item with its key. -/
def entry (x : T) : Σ _ : Key, T := ⟨getKey x, x⟩

/-- The table is in order and its items are the entries of the map. -/
structure Represents (t : HashTable T) (m : Contents Key T) : Prop where
  filed : t.Filed getKey hash
  numItems_eq : t.numItems = t.items.length
  entries_eq : m.entries = (t.items.map (entry getKey) : Multiset (Σ _ : Key, T))

section represents

variable [DecidableEq Key] {getKey : T → Key} {hash : Key → Word} {t : HashTable T}
  {m : Contents Key T} (h : t.Represents getKey hash m)
include h

omit [DecidableEq Key] in
/-- A table with the same items in another order represents the same map. -/
theorem Represents.of_perm {t' : HashTable T} (h' : t'.Filed getKey hash)
    (hperm : t'.items.Perm t.items) (hitems : t'.numItems = t.numItems) :
    t'.Represents getKey hash m := by
  refine ⟨h', ?_, ?_⟩
  · rw [hitems, h.numItems_eq, hperm.length_eq]
  · rw [h.entries_eq]
    exact (Multiset.coe_eq_coe.mpr (hperm.map _)).symm

omit [DecidableEq Key] in
theorem Represents.nodup_keys : (t.items.map getKey).Nodup := by
  have hnodup := m.nodupKeys.nodup_keys
  rw [h.entries_eq, Multiset.keys, Multiset.map_coe, Multiset.coe_nodup, List.map_map] at hnodup
  exact hnodup

omit [DecidableEq Key] in
theorem Represents.nodup : t.items.Nodup := h.nodup_keys.of_map getKey

theorem Represents.lookup_eq_some {key : Key} {x : T} :
    m.lookup key = some x ↔ x ∈ t.items ∧ getKey x = key := by
  rw [Finmap.lookup_eq_some_iff, h.entries_eq, Multiset.mem_coe, List.mem_map]
  constructor
  · rintro ⟨y, hy, heq⟩
    cases heq
    exact ⟨hy, rfl⟩
  · rintro ⟨hx, rfl⟩
    exact ⟨x, hx, rfl⟩

theorem Represents.findInBucket (key : Key) :
    t.findInBucket getKey ((hash key).toNat % t.numBuckets) key = m.lookup key := by
  cases hfind : t.findInBucket getKey ((hash key).toNat % t.numBuckets) key with
  | none =>
    refine (Option.eq_none_iff_forall_ne_some.mpr fun x hx ↦ ?_).symm
    obtain ⟨hmem, rfl⟩ := h.lookup_eq_some.mp hx
    have hnone := List.find?_eq_none.mp hfind x (h.filed.mem_items_iff.mp hmem)
    exact hnone (decide_eq_true rfl)
  | some x =>
    rw [HashTable.findInBucket] at hfind
    have hkey : key = getKey x := by simpa using List.find?_some hfind
    have hmem : x ∈ t.items :=
      mem_items.mpr ⟨_, h.filed.bucket_lt key, List.mem_of_find?_eq_some hfind⟩
    exact (h.lookup_eq_some.mpr ⟨hmem, hkey.symm⟩).symm

theorem Represents.find (key : Key) : t.find getKey hash key = some (m.lookup key) := by
  rw [HashTable.find, h.filed.hashValue, Option.bind_eq_bind, Option.bind_some, h.findInBucket]

theorem Represents.isInTable (key : Key) :
    t.isInTable getKey hash key = some (m.lookup key).isSome := by
  rw [HashTable.isInTable, h.find, Option.bind_eq_bind, Option.bind_some]

omit [DecidableEq Key] in
theorem Represents.numItems : t.numItems = m.keys.card := by
  have hcard : m.keys.card = m.entries.card := Multiset.card_map _ _
  rw [hcard, h.entries_eq, Multiset.coe_card, List.length_map, h.numItems_eq]

omit [DecidableEq Key] in
theorem Represents.sanityCheck : t.sanityCheck getKey hash = some () :=
  h.filed.sanityCheck h.numItems_eq

variable [DecidableEq T]

/-- A new item goes into the map under its key. -/
theorem Represents.appendToBucket {item : T} (hnew : getKey item ∉ m) :
    ∃ t', t.appendToBucket getKey hash item = some t' ∧
      ({ t' with numItems := t'.numItems + 1 } : HashTable T).Represents getKey hash
        (m.insert (getKey item) item) := by
  have hmem : item ∉ t.items := fun hmem ↦
    hnew (Finmap.mem_of_lookup_eq_some (h.lookup_eq_some.mpr ⟨hmem, rfl⟩))
  obtain ⟨t', hrun, h', hperm, -, hitems⟩ := h.filed.appendToBucket hmem
  refine ⟨t', hrun, ⟨h'.pos, h'.small, h'.linked, h'.hashed⟩, ?_, ?_⟩
  · have hlen : t'.items.length = t.items.length + 1 := hperm.length_eq
    have hsame : ({ t' with numItems := t'.numItems + 1 } : HashTable T).items = t'.items := rfl
    rw [hsame, hlen, hitems, h.numItems_eq, Int.natCast_succ]
  · rw [Finmap.entries_insert_of_notMem hnew, h.entries_eq, Multiset.cons_coe]
    exact (Multiset.coe_eq_coe.mpr (hperm.map (entry getKey))).symm

/-- `Insert` of an item with a new key. -/
theorem Represents.insert {item : T} (hnew : getKey item ∉ m) (hsize : t.numBucketsFor < 2 ^ 31) :
    ∃ t', t.insert getKey hash item = some t' ∧
      t'.Represents getKey hash (m.insert (getKey item) item) := by
  obtain ⟨t₁, hgrow, h₁⟩ : ∃ t₁, t.growIfFull getKey hash = some t₁ ∧
      t₁.Represents getKey hash m := by
    rw [numBucketsFor] at hsize
    rw [growIfFull]
    by_cases hfull : t.numItems / t.numBuckets ≥ resizeRatio
    · rw [if_pos hfull] at hsize ⊢
      obtain ⟨t₁, hrun, h₁, hperm, hitems⟩ := h.filed.reHash h.numItems_eq h.nodup hsize
      exact ⟨t₁, hrun, h.of_perm h₁ hperm hitems⟩
    · rw [if_neg hfull]
      exact ⟨t, rfl, h⟩
  obtain ⟨t₂, happend, h₂⟩ := h₁.appendToBucket hnew
  refine ⟨_, ?_, h₂⟩
  rw [HashTable.insert, h.isInTable, Finmap.lookup_eq_none.mpr hnew]
  simp only [Option.bind_eq_bind, Option.bind_some, Option.isSome_none, guard_of_true, hgrow,
    happend, h₂.isInTable, Finmap.lookup_insert, Option.isSome_some]

omit [DecidableEq T] in
/-- A table whose items are those of the map but for `x` represents the map without the key of
`x`. -/
theorem Represents.erase {t' : HashTable T} {x : T} (h' : t'.Filed getKey hash)
    (hperm : t.items.Perm (x :: t'.items)) (hitems : t'.numItems = t.numItems - 1) :
    t'.Represents getKey hash (m.erase (getKey x)) := by
  have hnodup := (hperm.map getKey).nodup_iff.mp h.nodup_keys
  rw [List.map_cons, List.nodup_cons] at hnodup
  have hkeys : (t'.items.map (entry getKey) : Multiset (Σ _ : Key, T)).NodupKeys := by
    rw [← Multiset.nodup_keys, Multiset.keys, Multiset.map_coe, Multiset.coe_nodup, List.map_map]
    exact hnodup.2
  have hout : getKey x ∉ (⟨_, hkeys⟩ : Contents Key T) := by
    rw [Finmap.mem_def, Multiset.keys, Multiset.map_coe, Multiset.mem_coe, List.map_map]
    exact hnodup.1
  -- the map is the entries of the new table with `x` put back
  have hm : m = Finmap.insert (getKey x) x ⟨_, hkeys⟩ := by
    refine Finmap.ext ?_
    rw [Finmap.entries_insert_of_notMem hout, h.entries_eq, Multiset.cons_coe]
    exact Multiset.coe_eq_coe.mpr (hperm.map (entry getKey))
  have herase : m.erase (getKey x) = ⟨_, hkeys⟩ := by
    refine Finmap.ext_lookup fun key ↦ ?_
    by_cases hkey : key = getKey x
    · rw [hkey, Finmap.lookup_erase, Finmap.lookup_eq_none.mpr hout]
    · rw [Finmap.lookup_erase_ne hkey, hm, Finmap.lookup_insert_of_ne _ hkey]
  refine ⟨h', ?_, congrArg Finmap.entries herase⟩
  rw [hitems, h.numItems_eq, hperm.length_eq, List.length_cons, Int.natCast_succ,
    Int.add_sub_cancel]

/-- `Remove` of a key that is there returns the item and takes it out of the map. -/
theorem Represents.remove {key : Key} {x : T} (hx : m.lookup key = some x) :
    ∃ t', t.remove getKey hash key = some (x, t') ∧ t'.Represents getKey hash (m.erase key) := by
  obtain ⟨hmem, rfl⟩ := h.lookup_eq_some.mp hx
  have hb := h.filed.bucket_lt (getKey x)
  have hvalue := h.filed.hashValue (getKey x)
  have hfind := h.findInBucket (getKey x)
  have hchain := h.filed.mem_items_iff.mp hmem
  rw [hx] at hfind
  generalize (hash (getKey x)).toNat % t.numBuckets = b at hb hvalue hfind hchain
  have hitems : t.items.Perm (x :: (⟨Function.update t.buckets b
      (.ofList ((t.buckets b).chain.erase x)), t.numBuckets, t.numItems - 1⟩ :
        HashTable T).items) := by
    have hperm := perm_items_update t (.ofList ((t.buckets b).chain.erase x)) hb (t.numItems - 1)
    rw [LinkedList.ofList_chain] at hperm
    refine (List.perm_append_right_iff ((t.buckets b).chain.erase x)).mp (hperm.symm.trans ?_)
    exact ((List.perm_cons_erase hchain).append_left _).trans List.perm_middle
  have honce : x ∉ (t.buckets b).chain.erase x := by
    intro hagain
    have hnodup := List.nodup_cons.mp (hitems.nodup_iff.mp h.nodup)
    refine hnodup.1 (mem_items.mpr ⟨b, hb, ?_⟩)
    simp only [Function.update_self, LinkedList.ofList_chain]
    exact hagain
  have hrest : ∀ y ∈ (t.buckets b).chain.erase x, (hash (getKey y)).toNat % t.numBuckets = b :=
    fun y hy ↦ h.filed.hashed b hb y (List.mem_of_mem_erase hy)
  have h' := h.erase (h.filed.update hrest (t.numItems - 1)) hitems rfl
  have hremove : (t.buckets b).remove x = some (.ofList ((t.buckets b).chain.erase x)) := by
    rw [h.filed.linked b hb, LinkedList.ofList_chain, LinkedList.remove_ofList hchain honce]
  refine ⟨_, ?_, h'⟩
  rw [HashTable.remove, hvalue]
  simp only [Option.bind_eq_bind, Option.bind_some, hfind, hremove, h'.isInTable,
    Finmap.lookup_erase, Option.isSome_none, guard_of_true]

end represents

/-! ## Visiting the items -/

/-- The items of the buckets from `b` on. -/
def itemsFrom (t : HashTable T) (b : ℕ) : List T :=
  (List.range' b (t.numBuckets - b)).flatMap fun i ↦ (t.buckets i).chain

private theorem itemsFrom_of_lt {t : HashTable T} {b : ℕ} (hb : b < t.numBuckets) :
    t.itemsFrom b = (t.buckets b).chain ++ t.itemsFrom (b + 1) := by
  rw [itemsFrom, show t.numBuckets - b = t.numBuckets - (b + 1) + 1 by omega, List.range'_succ,
    List.flatMap_cons, itemsFrom]

end HashTable

namespace HashIterator

variable {T : Type} {table : HashTable T}

/-- The iterator has the items `xs` before it: it is at the end of the table, or in a bucket with
an item to show. -/
inductive At (table : HashTable T) : HashIterator T → List T → Prop
  | done : At table ⟨table.numBuckets, none⟩ []
  | inBucket {b : ℕ} (hb : b < table.numBuckets) (first : T) (rest : List T) :
      At table ⟨b, some (first :: rest)⟩ (first :: rest ++ table.itemsFrom (b + 1))

section visit

variable (hlinked : ∀ i < table.numBuckets, table.buckets i = .ofList (table.buckets i).chain)

include hlinked

private theorem isEmpty_bucket {b : ℕ} (hb : b < table.numBuckets) :
    (table.buckets b).isEmpty = (table.buckets b).chain.isEmpty := by
  rw [hlinked b hb, LinkedList.isEmpty_ofList, LinkedList.ofList_chain]

private theorem at_enter {b : ℕ} (hb : b ≤ table.numBuckets) :
    At table (enter table (table.findNextFullBucket b)) (table.itemsFrom b) := by
  -- the induction follows the search for a bucket with items
  induction b using HashTable.findNextFullBucket.induct table with
  | case1 b hlt hempty ih =>
    have hnil := List.isEmpty_iff.mp (isEmpty_bucket hlinked hlt ▸ hempty)
    rw [HashTable.findNextFullBucket, if_pos hlt, if_pos hempty, HashTable.itemsFrom_of_lt hlt,
      hnil, List.nil_append]
    exact ih hlt
  | case2 b hlt hfull =>
    rw [HashTable.findNextFullBucket, if_pos hlt, if_neg hfull, HashTable.itemsFrom_of_lt hlt,
      enter, if_pos hlt]
    rw [isEmpty_bucket hlinked hlt] at hfull
    obtain ⟨first, rest, hchain⟩ := List.exists_cons_of_ne_nil (mt List.isEmpty_iff.mpr hfull)
    rw [hchain]
    exact .inBucket hlt first rest
  | case3 b hge =>
    obtain rfl : b = table.numBuckets := by omega
    rw [HashTable.findNextFullBucket, if_neg hge, enter, if_neg hge, HashTable.itemsFrom,
      Nat.sub_self]
    exact .done

/-- A round of the loop shows the next item. -/
theorem At.next {iter : HashIterator T} {x : T} {xs : List T} (h : At table iter (x :: xs)) :
    iter.item table = some x ∧ ∃ iter', iter.next table = some iter' ∧ At table iter' xs := by
  generalize hys : x :: xs = ys at h
  cases h with
  | done => cases hys
  | inBucket hb first rest =>
    rename_i b
    rw [List.cons_append] at hys
    cases hys
    constructor
    · have hmore : isDone table ⟨b, some (x :: rest)⟩ = false :=
        beq_false_of_ne (Nat.ne_of_lt hb)
      rw [item, guard_of_true hmore]
      rfl
    · cases rest with
      | nil => exact ⟨_, rfl, at_enter hlinked hb⟩
      | cons second rest => exact ⟨_, rfl, .inBucket hb second rest⟩

/-- The loop shows the items that are before the iterator and ends. -/
theorem At.visit {iter : HashIterator T} {xs : List T} (h : At table iter xs) :
    ∃ iter', visit table xs.length iter = some (xs, iter') ∧ iter'.isDone table = true := by
  induction xs generalizing iter with
  | nil =>
    refine ⟨iter, rfl, ?_⟩
    generalize hys : [] = ys at h
    cases h with
    | done => exact beq_self_eq_true _
    | inBucket _ _ _ => cases hys
  | cons x xs ih =>
    obtain ⟨hitem, iter₁, hnext, h₁⟩ := h.next hlinked
    obtain ⟨iter', hvisit, hdone⟩ := ih h₁
    refine ⟨iter', ?_, hdone⟩
    simp only [List.length_cons, HashIterator.visit, hitem, hnext, hvisit, Option.bind_eq_bind,
      Option.bind_some]

end visit

end HashIterator

namespace HashTable

variable {Key T : Type} [DecidableEq Key] [DecidableEq T] (getKey : T → Key) (hash : Key → Word)

/-! ## Sequences of operations -/

/-- The operations that change a table. -/
inductive Op (Key T : Type) where
  | insert (item : T)
  | remove (key : Key)

/-- An operation on the table; `Remove` returns an item. -/
def exec (op : Op Key T) (t : HashTable T) : Option (Option T × HashTable T) :=
  match op with
  | .insert item => (t.insert getKey hash item).map fun t' ↦ (none, t')
  | .remove key => (t.remove getKey hash key).map fun (item, t') ↦ (some item, t')

/-- A sequence of operations, with what they return. -/
def execAll (ops : List (Op Key T)) (t : HashTable T) : Option (List (Option T) × HashTable T) :=
  Program.execAll (fun t op ↦ t.exec getKey hash op) ops t

/-- The number of buckets after an operation. -/
def numBucketsAfter (t : HashTable T) : Op Key T → ℕ
  | .insert _ => t.numBucketsFor
  | .remove _ => t.numBuckets

/-- The number of buckets stays below `2 ^ 31` all along. -/
def StaysSmall (t : HashTable T) (ops : List (Op Key T)) : Prop :=
  Along (fun t op ↦ (t.exec getKey hash op).map Prod.snd) (fun t op ↦ t.numBucketsAfter op < 2 ^ 31)
    t ops

instance (t : HashTable T) (ops : List (Op Key T)) : Decidable (t.StaysSmall getKey hash ops) :=
  inferInstanceAs (Decidable (Along _ _ _ _))

namespace Contents

variable {getKey}

/-- An operation on a finite map. -/
def apply (getKey : T → Key) (op : Op Key T) (m : Contents Key T) :
    Option T × Contents Key T :=
  match op with
  | .insert item => (none, m.insert (getKey item) item)
  | .remove key => (m.lookup key, m.erase key)

def applyAll (getKey : T → Key) (ops : List (Op Key T)) (m : Contents Key T) :
    List (Option T) × Contents Key T :=
  Program.execAll (m := Id) (fun m op ↦ m.apply getKey op) ops m

/-- A key that is inserted is absent, and one that is removed is present. -/
def Fits (getKey : T → Key) (m : Contents Key T) : Op Key T → Prop
  | .insert item => getKey item ∉ m
  | .remove key => key ∈ m

instance (getKey : T → Key) (m : Contents Key T) (op : Op Key T) :
    Decidable (m.Fits getKey op) :=
  match op with
  | .insert item => inferInstanceAs (Decidable (getKey item ∉ m))
  | .remove key => inferInstanceAs (Decidable (key ∈ m))

/-- Keys that are inserted are absent, and keys that are removed are present. -/
def Legal (getKey : T → Key) (ops : List (Op Key T)) (m : Contents Key T) : Prop :=
  Along (fun m op ↦ some (m.apply getKey op).2) (fun m op ↦ m.Fits getKey op) m ops

instance (getKey : T → Key) (ops : List (Op Key T)) (m : Contents Key T) :
    Decidable (Legal getKey ops m) :=
  inferInstanceAs (Decidable (Along _ _ _ _))

end Contents

/-- The table behaves like the finite map `m`. -/
structure IsMap (t : HashTable T) (m : Contents Key T) : Prop where
  /-- `Find` returns what the map has under the key. -/
  find : ∀ key, t.find getKey hash key = some (m.lookup key)
  /-- Each item is in the bucket its key selects, and the buckets hold nothing else. -/
  filed : ∀ x, ∀ i < t.numBuckets, x ∈ (t.buckets i).chain ↔
    m.lookup (getKey x) = some x ∧ i = (hash (getKey x)).toNat % t.numBuckets
  numItems : t.numItems = m.keys.card
  sanityCheck : t.sanityCheck getKey hash = some ()
  /-- A loop over the table runs once for each item and ends. -/
  visit : ∃ items iter, HashIterator.visit t m.keys.card (.create t) = some (items, iter) ∧
    iter.isDone t = true ∧ items.Nodup ∧ ∀ x, x ∈ items ↔ m.lookup (getKey x) = some x

section run

variable {getKey hash} {t : HashTable T} {m : Contents Key T}

omit [DecidableEq T] in
theorem Represents.isMap (h : t.Represents getKey hash m) : t.IsMap getKey hash m := by
  have hitems : t.items = t.itemsFrom 0 := by
    rw [items, itemsFrom, List.range_eq_range', Nat.sub_zero]
  have hcard : m.keys.card = t.items.length :=
    Int.natCast_inj.mp (h.numItems.symm.trans h.numItems_eq)
  refine ⟨h.find, fun x i hi ↦ ?_, h.numItems, h.sanityCheck, ?_⟩
  · rw [h.lookup_eq_some]
    constructor
    · intro hx
      exact ⟨⟨mem_items.mpr ⟨i, hi, hx⟩, rfl⟩, (h.filed.hashed i hi x hx).symm⟩
    · rintro ⟨⟨hx, -⟩, rfl⟩
      exact h.filed.mem_items_iff.mp hx
  · obtain ⟨iter, hvisit, hdone⟩ :=
      (HashIterator.at_enter h.filed.linked (Nat.zero_le t.numBuckets)).visit h.filed.linked
    rw [← hitems, ← hcard] at hvisit
    refine ⟨t.items, iter, hvisit, hdone, h.nodup, fun x ↦ ?_⟩
    rw [h.lookup_eq_some]
    exact (and_iff_left rfl).symm

/-- A legal operation returns what it returns on the map. -/
theorem Represents.exec (h : t.Represents getKey hash m) {op : Op Key T}
    (hop : m.Fits getKey op) (hsize : t.numBucketsAfter op < 2 ^ 31) :
    ∃ t', t.exec getKey hash op = some ((m.apply getKey op).1, t') ∧
      t'.Represents getKey hash (m.apply getKey op).2 := by
  cases op with
  | insert item =>
    obtain ⟨t', hrun, h'⟩ := h.insert hop hsize
    exact ⟨t', by rw [HashTable.exec, hrun]; rfl, h'⟩
  | remove key =>
    obtain ⟨x, hx⟩ := Finmap.mem_iff.mp hop
    obtain ⟨t', hrun, h'⟩ := h.remove hx
    refine ⟨t', ?_, h'⟩
    rw [HashTable.exec, hrun, Contents.apply, hx]
    rfl

theorem Represents.execAll (h : t.Represents getKey hash m) {ops : List (Op Key T)}
    (hlegal : Contents.Legal getKey ops m) (hsmall : t.StaysSmall getKey hash ops) :
    ∃ t', t.execAll getKey hash ops = some ((m.applyAll getKey ops).1, t') ∧
      t'.Represents getKey hash (m.applyAll getKey ops).2 := by
  obtain ⟨results, t', m', hrun, happly, h', -⟩ := Steps.simulates
    (fun (t : HashTable T) op result t' ↦ t.exec getKey hash op = some (result, t'))
    (fun (m : Contents Key T) op result m' ↦ m.apply getKey op = (result, m'))
    (fun t m ops ↦ t.Represents getKey hash m ∧ Contents.Legal getKey ops m ∧
      t.StaysSmall getKey hash ops)
    (fun t m op ops hR ↦ by
      obtain ⟨h, hlegal, hsmall⟩ := hR
      obtain ⟨t₁, hrun, h₁⟩ := h.exec hlegal.1 hsmall.1
      exact ⟨_, t₁, _, hrun, rfl, h₁, hlegal.2 _ rfl,
        hsmall.2 t₁ (congrArg (Option.map Prod.snd) hrun)⟩)
    ops ⟨h, hlegal, hsmall⟩
  have hresults : m.applyAll getKey ops = (results, m') := happly.execAll_pure
  rw [hresults]
  exact ⟨t', hrun.execAll_some, h'⟩

omit [DecidableEq Key] [DecidableEq T] in
theorem represents_create : (create : HashTable T).Represents getKey hash (∅ : Contents Key T) :=
  ⟨⟨show 0 < initialBuckets by decide, show initialBuckets < 2 ^ 31 by decide, fun _ _ ↦ rfl,
    fun _ _ _ hx ↦ absurd hx List.not_mem_nil⟩, rfl, rfl⟩

end run

/-- **A hash table is a finite map.** Whatever the keys and the hash function, and whatever
sequence of insertions of new keys and removals of present keys follows the creation of the table:
no assertion fails, the removals return what they return on a finite map, and the table they leave
behaves like that map. -/
theorem hashTable_isMap {ops : List (Op Key T)} (hlegal : Contents.Legal getKey ops ∅)
    (hsmall : (create : HashTable T).StaysSmall getKey hash ops) :
    ∃ t, create.execAll getKey hash ops = some ((Contents.applyAll getKey ops ∅).1, t) ∧
      t.IsMap getKey hash (Contents.applyAll getKey ops ∅).2 := by
  obtain ⟨t, hrun, h⟩ := represents_create.execAll hlegal hsmall
  exact ⟨t, hrun, h.isMap⟩

/-- Thirteen numbers that all hash to the same bucket, the last of which makes the table grow. -/
def thirteen : List (Op ℕ ℕ) := (List.range 13).map .insert ++ [.remove 3]

theorem hashTable_isMap_thirteen :
    ∃ t, create.execAll id (fun n ↦ BitVec.ofNat 32 (16 * n)) thirteen
        = some (List.replicate 13 none ++ [some 3], t) ∧ t.numItems = 12 := by
  obtain ⟨t, hrun, h⟩ := hashTable_isMap id (fun n ↦ BitVec.ofNat 32 (16 * n))
    (show Contents.Legal id thirteen ∅ by decide +kernel)
    (show create.StaysSmall id _ thirteen by decide +kernel)
  exact ⟨t, hrun, h.numItems.trans (by decide +kernel)⟩

end HashTable

end Nachos
