import ExpiringCache.Expiry.Bucket
import ExpiringCache.Table

/-! # The expiry index

    The index assigns keys to buckets and, the other way round, lists the
    keys of each bucket.  The two sides are separate tables.  A bucket whose
    last key moves away stays listed without keys until it is deleted, and a
    deleted bucket leaves the assignments of its keys alone: the janitor
    settles those one by one. -/

namespace ExpiringCache

/-- Keys by bucket, and buckets by key. -/
structure ExpiryIndex (K : Type) where
  assigned : Table K Int
  members : Table Int (KeySet K)
  deriving DecidableEq

namespace ExpiryIndex

variable {K : Type}

/-- The index without keys and buckets. -/
def empty : ExpiryIndex K := ⟨.empty, .empty⟩

instance : Inhabited (ExpiryIndex K) := ⟨empty⟩

/-- The number of assigned keys. -/
def size (ix : ExpiryIndex K) : Nat := ix.assigned.size

/-- The number of listed buckets, those without keys included. -/
def bucketCount (ix : ExpiryIndex K) : Nat := ix.members.size

/-- Forgets all keys and buckets. -/
def clear (_ : ExpiryIndex K) : ExpiryIndex K := empty

variable [DecidableEq K]

/-! ## Assignments -/

/-- The bucket that `key` is assigned to. -/
def bucket (ix : ExpiryIndex K) (key : K) : Int := (ix.assigned.get? key).getD noBucket

/-- Assigns `key` to `bucket` and lists it nowhere. -/
def assign (ix : ExpiryIndex K) (key : K) (bucket : Int) : ExpiryIndex K :=
  { ix with assigned := ix.assigned.insert key bucket }

/-- Ends the assignment of `key`, whichever it is, and answers the bucket. -/
def unassign (ix : ExpiryIndex K) (key : K) : Int × ExpiryIndex K :=
  (ix.bucket key, { ix with assigned := ix.assigned.erase key })

/-- Ends the assignment of `key` if it is to `bucket`, and answers whether
    it was. -/
def unassignFrom (ix : ExpiryIndex K) (key : K) (bucket : Int) : Bool × ExpiryIndex K :=
  if ix.assigned.get? key = some bucket then (true, (ix.unassign key).2) else (false, ix)

/-! ## Buckets -/

/-- The keys listed in `bucket`. -/
def listed (ix : ExpiryIndex K) (bucket : Int) : List K :=
  (ix.members.get? bucket).elim [] Table.keys

/-- Lists `bucket`, without keys if it is new. -/
def openBucket (ix : ExpiryIndex K) (bucket : Int) : ExpiryIndex K :=
  match ix.members.get? bucket with
  | some _ => ix
  | none => { ix with members := ix.members.insert bucket .empty }

/-- Lists `key` in `bucket`. -/
def list (ix : ExpiryIndex K) (bucket : Int) (key : K) : ExpiryIndex K :=
  let keys := (ix.members.get? bucket).getD .empty
  { ix with members := ix.members.insert bucket (keys.insert key ()) }

/-- Takes `key` off the list of `bucket`, if there is such a list. -/
def unlist (ix : ExpiryIndex K) (bucket : Int) (key : K) : ExpiryIndex K :=
  match ix.members.get? bucket with
  | none => ix
  | some keys => { ix with members := ix.members.insert bucket (keys.erase key) }

/-- Deletes `bucket` and answers its keys; `none` if it was not listed. -/
def deleteBucket (ix : ExpiryIndex K) (bucket : Int) : Option (List K) × ExpiryIndex K :=
  match ix.members.get? bucket with
  | none => (none, ix)
  | some keys => (some keys.keys, { ix with members := ix.members.erase bucket })

/-! ## What the two sides show -/

theorem listed_list (ix : ExpiryIndex K) (bucket : Int) (key k : K) :
    k ∈ (ix.list bucket key).listed bucket ↔ k = key ∨ k ∈ ix.listed bucket := by
  unfold listed list
  rw [Table.get?_insert, if_pos rfl]
  cases h : ix.members.get? bucket with
  | none => exact Table.mem_keys_place
  | some keys => exact Table.mem_keys_place

/-! ## Both sides together -/

/-- Moves `key` to `bucket`; `false` if it is assigned to it already. -/
def reindex (ix : ExpiryIndex K) (key : K) (bucket : Int) : Bool × ExpiryIndex K :=
  let old := ix.bucket key
  if old = bucket then (false, ix)
  else
    let ix := ix.list bucket key
    let ix := if old = noBucket then ix else ix.unlist old key
    (true, ix.assign key bucket)

/-- Ends the assignment of `key` and takes it off that bucket's list. -/
def unindex (ix : ExpiryIndex K) (key : K) : ExpiryIndex K :=
  let (old, ix) := ix.unassign key
  if old = noBucket then ix else ix.unlist old key

end ExpiryIndex

end ExpiringCache
