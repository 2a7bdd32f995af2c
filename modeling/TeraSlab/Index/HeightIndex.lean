import TeraSlab.Foundations.Run
import TeraSlab.Index.MinedIndex

/-!
# Height indexes

`DahIndex` and `PreserveIndex` keep the keys of each height in a bucket, a hash set or a vector, and
the height of each key beside it. A bucket is the list of its keys; in a hash set its order is
an argument of the queries.
-/

namespace TeraSlab.Index

open Foundations

/-- How a bucket takes in a key. -/
structure BucketKind where
  add : TxKey → List TxKey → List TxKey
  perm_add {key keys} : key ∉ keys → (add key keys).Perm (key :: keys)

/-- The buckets of `DahIndex`. -/
def hashSet : BucketKind := ⟨List.insert, fun h => by rw [List.insert_of_not_mem h]⟩

/-- The buckets of `PreserveIndex`. -/
def vec : BucketKind :=
  ⟨fun key keys => keys ++ [key], fun _ => List.perm_append_singleton ..⟩

structure HeightIndex where
  byHeight : SortedMap Nat (List TxKey)
  byTxid : TxKey → Option Nat

/-- Only `DahIndex` replays redo entries. -/
inductive HeightCall where
  | insert (height : Nat) (key : TxKey)
  | remove (key : TxKey)
  | replayRedo (key : TxKey) (newHeight : Nat)
  | clear

/-- In which order a bucket lists its keys. -/
structure Listing where
  order : List TxKey → List TxKey
  perm (keys) : (order keys).Perm keys

/-- The loops of `range_query_limited`, over the keys in the order of their visits. -/
def pushKeys (limit : Nat) : List TxKey → List TxKey → List TxKey
  | result, [] => result
  | result, key :: keys =>
    let result := result ++ [key]
    if limit ≤ result.length then result else pushKeys limit result keys

namespace HeightIndex

def new : HeightIndex := ⟨.empty, fun _ => none⟩

def removeFromHeightVec (byHeight : SortedMap Nat (List TxKey)) (height : Nat) (key : TxKey) :
    SortedMap Nat (List TxKey) :=
  match byHeight.get? height with
  | none => byHeight
  | some keys =>
    let keys := keys.filter (· ≠ key)
    if keys = [] then byHeight.erase height else byHeight.insert height keys

variable (kind : BucketKind) (t : HeightIndex) (height : Nat) (key : TxKey)

def bucket : List TxKey := (t.byHeight.get? height).getD []

def place : HeightIndex :=
  ⟨t.byHeight.insert height (kind.add key (t.bucket height)),
    Function.update t.byTxid key (some height)⟩

def insert : HeightIndex :=
  match t.byTxid key with
  | some old =>
    if old = height then t
    else { t with byHeight := removeFromHeightVec t.byHeight old key }.place kind height key
  | none => t.place kind height key

def remove : HeightIndex :=
  match t.byTxid key with
  | some height =>
    ⟨removeFromHeightVec t.byHeight height key, Function.update t.byTxid key none⟩
  | none => t

def step : HeightCall → HeightIndex
  | .insert height key => t.insert kind height key
  | .remove key => t.remove key
  | .replayRedo key newHeight =>
    if newHeight = 0 then t.remove key else t.insert kind newHeight key
  | .clear => new

variable (listing : Listing) (first last limit : Nat)

/-- `DahIndex` queries the heights from 0, `PreserveIndex` from 1. -/
def rangeQuery : List TxKey :=
  (t.byHeight.entries.filter fun e => first ≤ e.1 ∧ e.1 ≤ last).flatMap fun e => listing.order e.2

def rangeQueryLimited : List TxKey :=
  if limit = 0 then [] else pushKeys limit [] (t.rangeQuery listing first last)

end HeightIndex

/-! ## An index as a map -/

abbrev Heights := TxKey → Option Nat

namespace Heights

def step (f : Heights) : HeightCall → Heights
  | .insert height key => Function.update f key (some height)
  | .remove key => Function.update f key none
  | .replayRedo key newHeight =>
    Function.update f key (if newHeight = 0 then none else some newHeight)
  | .clear => fun _ => none

def due (f : Heights) (first last : Nat) : Set TxKey :=
  {key | ∃ height ∈ f key, first ≤ height ∧ height ≤ last}

/-- As many due keys as the limit allows, the lowest heights first. -/
structure Limited (f : Heights) (first last limit : Nat) (out : List TxKey) : Prop where
  length : out.length = min limit (f.due first last).ncard
  nodup : out.Nodup
  due : ∀ key ∈ out, key ∈ f.due first last
  lowest : ∀ key ∈ out, ∀ key' ∈ f.due first last, key' ∉ out →
    ∀ a ∈ f key, ∀ b ∈ f key', a ≤ b

end Heights

theorem pushKeys_eq {limit : Nat} {result keys : List TxKey} (h : result.length < limit) :
    pushKeys limit result keys = result ++ keys.take (limit - result.length) := by
  fun_induction pushKeys limit result keys with
  | case1 => simp
  | case2 result key keys result' hfull =>
    have hone : limit - result.length = 1 := by grind
    simp [hone, result']
  | case3 result key keys result' hroom ih =>
    have hsucc : limit - result.length = limit - result'.length + 1 := by grind
    rw [ih (by omega), hsucc]
    simp [result']

namespace HeightIndex

/-- The two maps describe the same pairs, each key is listed once, and no bucket is empty. -/
structure Describes (t : HeightIndex) (f : Heights) : Prop where
  byTxid : t.byTxid = f
  nodup (height) : (t.bucket height).Nodup
  mem {key height} : key ∈ t.bucket height ↔ f key = some height
  nonempty (height) : (height, []) ∉ t.byHeight.entries

variable {kind : BucketKind} {t : HeightIndex} {f : Heights} {height i : Nat} {key : TxKey}

theorem insert_eq : t.insert kind height key =
    if t.byTxid key = some height then t else (t.remove key).place kind height key := by
  unfold insert remove
  cases t.byTxid key with
  | none => rfl
  | some old => simp [place, bucket]

theorem rangeQueryLimited_eq (listing : Listing) (first last limit : Nat) :
    t.rangeQueryLimited listing first last limit =
      (t.rangeQuery listing first last).take limit := by
  unfold rangeQueryLimited
  split_ifs with h
  · simp [h]
  · exact pushKeys_eq (Nat.pos_of_ne_zero h)

theorem mem_bucket :
    key ∈ t.bucket height ↔ ∃ keys, (height, keys) ∈ t.byHeight.entries ∧ key ∈ keys := by
  simp only [← SortedMap.get?_eq_some, bucket]
  cases t.byHeight.get? height <;> simp

theorem bucket_place : (t.place kind height key).bucket i =
    if i = height then kind.add key (t.bucket i) else t.bucket i := by
  unfold place bucket
  grind [SortedMap.get?_insert]

theorem bucket_remove : (t.remove key).bucket i =
    if t.byTxid key = some i then (t.bucket i).filter (· ≠ key) else t.bucket i := by
  unfold remove removeFromHeightVec bucket
  grind [SortedMap.get?_erase, SortedMap.get?_insert]

theorem describes_new : new.Describes fun _ => none := by
  constructor <;> simp [new, bucket]

section

variable (h : t.Describes f)
include h

theorem Describes.place (hkey : f key = none) :
    (t.place kind height key).Describes (Function.update f key (some height)) := by
  have hnew : key ∉ t.bucket height := by simp [h.mem, hkey]
  have hperm := kind.perm_add hnew
  refine ⟨by rw [HeightIndex.place, h.byTxid], fun i => ?_, fun {k i} => ?_, ?_⟩
  · rw [bucket_place]
    split_ifs with hi
    · exact hi ▸ hperm.nodup_iff.mpr (List.nodup_cons.mpr ⟨hnew, h.nodup height⟩)
    · exact h.nodup i
  · rw [bucket_place]
    grind [Function.update_apply, Describes.mem, hperm.mem_iff]
  · unfold HeightIndex.place
    grind [SortedMap.mem_insert, Describes.nonempty, hperm.length_eq]

theorem Describes.remove : (t.remove key).Describes (Function.update f key none) := by
  refine ⟨?_, fun i => ?_, fun {k i} => ?_, ?_⟩
  · unfold HeightIndex.remove
    rw [h.byTxid]
    cases hold : f key with
    | none => exact h.byTxid.trans (hold ▸ Function.update_eq_self key f).symm
    | some height => rfl
  · rw [bucket_remove]
    grind [Describes.nodup, List.Nodup.filter]
  · rw [bucket_remove, h.byTxid]
    grind [Function.update_apply, Describes.mem]
  · unfold HeightIndex.remove removeFromHeightVec
    grind [SortedMap.mem_insert, SortedMap.mem_erase, Describes.nonempty]

theorem Describes.insert :
    (t.insert kind height key).Describes (Function.update f key (some height)) := by
  rw [insert_eq, h.byTxid]
  split_ifs with hold
  · rwa [← hold, Function.update_eq_self]
  · have hplaced := @Describes.place kind _ _ height key h.remove (Function.update_self ..)
    rwa [Function.update_idem] at hplaced

theorem Describes.step (call : HeightCall) : (t.step kind call).Describes (f.step call) := by
  cases call with
  | insert height key => exact h.insert
  | remove key => exact h.remove
  | replayRedo key newHeight =>
    simp only [HeightIndex.step, Heights.step]
    split_ifs
    · exact h.remove
    · exact h.insert
  | clear => exact describes_new

variable (listing : Listing) (first last limit : Nat)

theorem Describes.mem_rangeQuery (key : TxKey) :
    key ∈ t.rangeQuery listing first last ↔ key ∈ f.due first last := by
  simp only [rangeQuery, List.mem_flatMap, List.mem_filter, (listing.perm _).mem_iff, Heights.due,
    Set.mem_ofPred_eq, Option.mem_def, ← h.mem, mem_bucket, decide_eq_true_eq, Prod.exists]
  grind

/-- The due keys are listed once each, and by height. -/
theorem Describes.pairwise_rangeQuery : (t.rangeQuery listing first last).Pairwise
    fun key key' => key ≠ key' ∧ ∀ a ∈ f key, ∀ b ∈ f key', a ≤ b := by
  have hlisted : ∀ e ∈ t.byHeight.entries, ∀ key ∈ listing.order e.2, f key = some e.1 :=
    fun e he key hkey => h.mem.mp (mem_bucket.mpr ⟨e.2, he, (listing.perm _).mem_iff.mp hkey⟩)
  rw [rangeQuery, List.pairwise_flatMap]
  refine ⟨fun e he => ?_, (t.byHeight.sorted.filter _).imp_of_mem fun {e e'} he he' hlt => ?_⟩
  · replace he := (List.mem_filter.mp he).1
    have hnodup := h.nodup e.1
    rw [bucket, SortedMap.get?_eq_some.mpr he] at hnodup
    refine ((listing.perm _).nodup_iff.mpr hnodup).imp_of_mem fun hk hk' hne => ⟨hne, ?_⟩
    simp [hlisted e he _ hk, hlisted e he _ hk']
  · intro key hk key' hk'
    replace hk := hlisted e (List.mem_filter.mp he).1 key hk
    replace hk' := hlisted e' (List.mem_filter.mp he').1 key' hk'
    grind

theorem Describes.limited :
    f.Limited first last limit (t.rangeQueryLimited listing first last limit) := by
  have hsorted := h.pairwise_rangeQuery listing first last
  have hmem := h.mem_rangeQuery listing first last
  rw [rangeQueryLimited_eq]
  generalize t.rangeQuery listing first last = out at hsorted hmem
  have hnodup : out.Nodup := hsorted.imp And.left
  have hdue : f.due first last = out.toFinset := Set.ext fun key => by simp [hmem]
  rw [← List.take_append_drop limit out] at hsorted hmem
  refine ⟨?_, hnodup.sublist (List.take_sublist ..), fun key hkey => ?_, ?_⟩
  · rw [hdue, Set.ncard_coe_finset, List.toFinset_card_of_nodup hnodup, List.length_take]
  · exact (hmem key).mp (List.mem_append_left _ hkey)
  · intro key hkey key' hkey' hleft
    have hdrop := (List.mem_append.mp ((hmem key').mpr hkey')).resolve_left hleft
    exact ((List.pairwise_append.mp hsorted).2.2 key hkey key' hdrop).2

end

end HeightIndex

/-- After any calls the two maps describe the heights that were set, and a limited query returns as
many due keys as its limit allows, the lowest heights first. -/
theorem heightIndex_refines (kind : BucketKind) (calls : List HeightCall) :
    let t := run (HeightIndex.step kind) .new calls
    let f := run Heights.step (fun _ => none) calls
    t.Describes f ∧ ∀ listing first last limit,
      f.Limited first last limit (t.rangeQueryLimited listing first last limit) := by
  intro t f
  have h : t.Describes f :=
    List.foldl_rel HeightIndex.describes_new fun call _ _ _ h => h.step call
  exact ⟨h, h.limited⟩

end TeraSlab.Index
