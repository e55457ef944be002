import Mathlib.Algebra.BigOperators.Group.List.Basic
import Mathlib.Data.List.Permutation
import Scs.Library.Bytes
import Scs.Xdr.Storage

/-!
# Modification metadata (`state_db/modification_metadata.h`)

Each node of the modification trie sums up the deltas below it: their common type
and their total. The base class comes with the trie library and is a parameter. The
words of the source lie in memory lowest byte first.
-/

namespace Scs

set_option autoImplicit false

open Bytes

/-! ## Values -/

abbrev Int128 := BitVec 128

inductive ActiveMeta where
  | none
  | nnint64 (delta : Int128)
  | hashsetLimit (delta : UInt64)
  | knownSupplyAsset (delta : Int128)
  deriving DecidableEq, Repr

structure MetadataBase (Base : Type) where
  writeTo : Base → List UInt8
  tryParse : List UInt8 → Option Base
  fromValue : StorageDelta → Base
  add : Base → Base → Base
  clear : Base

structure ModificationMetadata (Base : Type) where
  activeMeta : ActiveMeta
  base : Base
  deriving DecidableEq, Repr

/-! ## Bytes -/

namespace ActiveMeta

def tag : ActiveMeta → UInt8
  | .none => 0
  | .nnint64 _ => 1
  | .hashsetLimit _ => 2
  | .knownSupplyAsset _ => 3

def bytes : ActiveMeta → List UInt8
  | .none => []
  | .nnint64 delta => littleEndian 16 delta.toNat
  | .hashsetLimit delta => littleEndian 8 delta.toNat
  | .knownSupplyAsset delta => littleEndian 16 delta.toNat

/-- `*reinterpret_cast<const uint64_t*>(data)`. -/
def readUint64 (data : List UInt8) : UInt64 := UInt64.ofNat (fromLittleEndian (data.take 8))

/-- `*reinterpret_cast<const int128_t*>(data)`. -/
def readInt128 (data : List UInt8) : Int128 := BitVec.ofNat 128 (fromLittleEndian (data.take 16))

/-- What `try_parse` reads, and the bytes it leaves to the base class. -/
def tryParse (data : List UInt8) : Option (ActiveMeta × List UInt8) :=
  match data with
  | [] => Option.none
  | tag :: _ =>
      match tag.toNat with
      | 0 => some (.none, data.drop 1)
      | 2 =>
          if data.length < 8 + 1 then Option.none
          else some (.hashsetLimit (readUint64 data), data.drop (8 + 1))
      | 1 =>
          if data.length < 16 + 1 then Option.none
          else some (.nnint64 (readInt128 data), data.drop (16 + 1))
      | 3 =>
          if data.length < 16 + 1 then Option.none
          else some (.knownSupplyAsset (readInt128 data), data.drop (16 + 1))
      | _ => Option.none

end ActiveMeta

namespace ModificationMetadata

variable {Base : Type} (metadataBase : MetadataBase Base)

def writeTo (metadata : ModificationMetadata Base) : List UInt8 :=
  metadata.activeMeta.tag :: (metadata.activeMeta.bytes ++ metadataBase.writeTo metadata.base)

def tryParse (data : List UInt8) : Option (ModificationMetadata Base) := do
  let (activeMeta, rest) ← ActiveMeta.tryParse data
  let base ← metadataBase.tryParse rest
  pure { activeMeta, base }

end ModificationMetadata

/-! ## Sums -/

namespace ActiveMeta

def fromValue : StorageDelta → ActiveMeta
  | .nonnegativeInt64SetAdd setAdd => .nnint64 (BitVec.ofInt 128 setAdd.delta.toInt)
  | .hashSetIncreaseLimit limitIncrease => .hashsetLimit limitIncrease.toUInt64
  | .assetObjectAdd assetDelta => .knownSupplyAsset (BitVec.ofInt 128 assetDelta.toInt)
  | _ => .none

/-- `operator+=`. Nothing active takes what the other has, whether it stands for no
delta yet or for deltas of several types. -/
def add (active other : ActiveMeta) : ActiveMeta :=
  match active, other with
  | .none, other => other
  | .nnint64 delta, .nnint64 otherDelta => .nnint64 (delta + otherDelta)
  | .hashsetLimit delta, .hashsetLimit otherDelta => .hashsetLimit (delta + otherDelta)
  | .knownSupplyAsset delta, .knownSupplyAsset otherDelta =>
      .knownSupplyAsset (delta + otherDelta)
  | _, _ => .none

end ActiveMeta

namespace ModificationMetadata

variable {Base : Type} (metadataBase : MetadataBase Base)

def fromValue (value : StorageDelta) : ModificationMetadata Base where
  activeMeta := .fromValue value
  base := metadataBase.fromValue value

def add (metadata other : ModificationMetadata Base) : ModificationMetadata Base where
  activeMeta := metadata.activeMeta.add other.activeMeta
  base := metadataBase.add metadata.base other.base

def clear : ModificationMetadata Base where
  activeMeta := .none
  base := metadataBase.clear

-- A cleared sum takes over whatever is added first.
example (metadata : ModificationMetadata Base) :
    ((clear metadataBase).add metadataBase metadata).activeMeta = metadata.activeMeta := rfl

end ModificationMetadata

/-! ## The round trip -/

namespace ActiveMeta

/-- Each arm reads its word from the tag on, one byte before it was written. The offset that
is handed to the base class is right all the same. -/
def misread (activeMeta : ActiveMeta) : ActiveMeta :=
  match activeMeta with
  | .none => .none
  | .nnint64 _ => .nnint64 (readInt128 (activeMeta.tag :: activeMeta.bytes))
  | .hashsetLimit _ => .hashsetLimit (readUint64 (activeMeta.tag :: activeMeta.bytes))
  | .knownSupplyAsset _ => .knownSupplyAsset (readInt128 (activeMeta.tag :: activeMeta.bytes))

def ReadsBack : ActiveMeta → Prop
  | .none => True
  | .nnint64 delta => delta = 0x01010101010101010101010101010101
  | .hashsetLimit delta => delta = 0x0202020202020202
  | .knownSupplyAsset delta => delta = 0x03030303030303030303030303030303

instance (activeMeta : ActiveMeta) : Decidable activeMeta.ReadsBack := by
  cases activeMeta <;> unfold ReadsBack <;> infer_instance

/-- The offsets fit: whatever is active, the base class gets what follows. -/
theorem try_parse_written (activeMeta : ActiveMeta) (rest : List UInt8) :
    tryParse (activeMeta.tag :: (activeMeta.bytes ++ rest)) = some (activeMeta.misread, rest) := by
  have dropped {size : ℕ} {bytes : List UInt8} (length : bytes.length = size) (tag : UInt8) :
      (tag :: (bytes ++ rest)).drop (size + 1) = rest := by
    rw [List.drop_succ_cons, ← length, List.drop_left]
  have enough {size : ℕ} {bytes : List UInt8} (length : bytes.length = size) (tag : UInt8) :
      ¬ (tag :: (bytes ++ rest)).length < size + 1 := by
    rw [List.length_cons, List.length_append, length]
    omega
  have front {size : ℕ} {bytes : List UInt8} (length : bytes.length = size) (tag : UInt8) :
      (tag :: (bytes ++ rest)).take size = (tag :: bytes).take size := by
    rw [← List.cons_append, List.take_append_of_le_length]
    rw [List.length_cons, length]
    exact Nat.le_succ size
  cases activeMeta with
  | none => rfl
  | nnint64 delta =>
      have length := length_little_endian 16 delta.toNat
      simp only [tryParse, tag, bytes, misread, readInt128, dropped length, front length,
        if_neg (enough length _)]
      rfl
  | hashsetLimit delta =>
      have length := length_little_endian 8 delta.toNat
      simp only [tryParse, tag, bytes, misread, readUint64, dropped length, front length,
        if_neg (enough length _)]
      rfl
  | knownSupplyAsset delta =>
      have length := length_little_endian 16 delta.toNat
      simp only [tryParse, tag, bytes, misread, readInt128, dropped length, front length,
        if_neg (enough length _)]
      rfl

theorem read_int128_early_iff (tag : UInt8) (delta : Int128) :
    readInt128 (tag :: littleEndian 16 delta.toNat) = delta ↔
      delta = BitVec.ofNat 128 (fromLittleEndian (List.replicate 16 tag)) := by
  have bound : delta.toNat < 256 ^ 16 := delta.isLt
  have early := read_early_iff bound tag []
  have taken := from_little_endian_lt ((tag :: littleEndian 16 delta.toNat).take 16)
  have repeated := from_little_endian_lt (List.replicate 16 tag)
  have width : (256 : ℕ) ^ 16 = 2 ^ 128 := by norm_num
  rw [List.length_take, List.length_cons, length_little_endian, Nat.min_eq_left (Nat.le_succ _),
    width] at taken
  rw [List.length_replicate, width] at repeated
  rw [List.append_nil] at early
  rw [readInt128, BitVec.toNat_eq, BitVec.toNat_ofNat, Nat.mod_eq_of_lt taken, early,
    BitVec.toNat_eq, BitVec.toNat_ofNat, Nat.mod_eq_of_lt repeated]

theorem read_uint64_early_iff (tag : UInt8) (delta : UInt64) :
    readUint64 (tag :: littleEndian 8 delta.toNat) = delta ↔
      delta = UInt64.ofNat (fromLittleEndian (List.replicate 8 tag)) := by
  have bound : delta.toNat < 256 ^ 8 := delta.toNat_lt
  have early := read_early_iff bound tag []
  have taken := from_little_endian_lt ((tag :: littleEndian 8 delta.toNat).take 8)
  have repeated := from_little_endian_lt (List.replicate 8 tag)
  have width : (256 : ℕ) ^ 8 = 2 ^ 64 := by norm_num
  rw [List.length_take, List.length_cons, length_little_endian, Nat.min_eq_left (Nat.le_succ _),
    width] at taken
  rw [List.length_replicate, width] at repeated
  rw [List.append_nil] at early
  rw [readUint64, ← UInt64.toNat_inj, UInt64.toNat_ofNat', Nat.mod_eq_of_lt taken, early,
    ← UInt64.toNat_inj, UInt64.toNat_ofNat', Nat.mod_eq_of_lt repeated]

theorem misread_eq_iff (activeMeta : ActiveMeta) :
    activeMeta.misread = activeMeta ↔ activeMeta.ReadsBack := by
  cases activeMeta with
  | none => simp only [misread, ReadsBack]
  | nnint64 delta =>
      rw [misread, nnint64.injEq]
      exact read_int128_early_iff 1 delta
  | hashsetLimit delta =>
      rw [misread, hashsetLimit.injEq]
      exact read_uint64_early_iff 2 delta
  | knownSupplyAsset delta =>
      rw [misread, knownSupplyAsset.injEq]
      exact read_int128_early_iff 3 delta

end ActiveMeta

namespace ModificationMetadata

variable {Base : Type} {metadataBase : MetadataBase Base}

theorem try_parse_write_to {metadata : ModificationMetadata Base}
    (roundTrip : metadataBase.tryParse (metadataBase.writeTo metadata.base) = some metadata.base) :
    tryParse metadataBase (metadata.writeTo metadataBase) =
      some { activeMeta := metadata.activeMeta.misread, base := metadata.base } := by
  simp only [tryParse, writeTo, ActiveMeta.try_parse_written, bind, Option.bind, roundTrip]
  rfl

/-- The base class gets back the bytes that it wrote, but a payload is read from the
tag on and survives only if all its bytes equal the tag. -/
theorem metadata_round_trip_iff (metadataBase : MetadataBase Base)
    (metadata : ModificationMetadata Base)
    (roundTrip : metadataBase.tryParse (metadataBase.writeTo metadata.base) = some metadata.base) :
    (tryParse metadataBase (metadata.writeTo metadataBase) = some metadata ∧
        (ActiveMeta.tryParse (metadata.writeTo metadataBase)).map Prod.snd =
          some (metadataBase.writeTo metadata.base)) ↔
      metadata.activeMeta.ReadsBack := by
  have handed : (ActiveMeta.tryParse (metadata.writeTo metadataBase)).map Prod.snd =
      some (metadataBase.writeTo metadata.base) := by
    rw [writeTo, ActiveMeta.try_parse_written, Option.map_some]
  rw [try_parse_write_to roundTrip, ← ActiveMeta.misread_eq_iff]
  constructor
  · intro ⟨parsed, _⟩
    exact congrArg activeMeta (Option.some.inj parsed)
  · intro same
    rw [same]
    exact ⟨rfl, handed⟩

end ModificationMetadata

def countingMetadataBase : MetadataBase UInt64 where
  writeTo count := littleEndian 8 count.toNat
  tryParse data :=
    if data.length = 8 then some (UInt64.ofNat (fromLittleEndian data)) else none
  fromValue _ := 1
  add count other := count + other
  clear := 0

/-- One of the payloads that survive, over three values. -/
theorem metadata_round_trip_iff_repeated :
    ModificationMetadata.tryParse countingMetadataBase
        (ModificationMetadata.writeTo countingMetadataBase
          ⟨.hashsetLimit 0x0202020202020202, 3⟩) =
      some ⟨.hashsetLimit 0x0202020202020202, 3⟩ ∧
    (ActiveMeta.tryParse (ModificationMetadata.writeTo countingMetadataBase
        ⟨.hashsetLimit 0x0202020202020202, 3⟩)).map Prod.snd = some [3, 0, 0, 0, 0, 0, 0, 0] :=
  (ModificationMetadata.metadata_round_trip_iff countingMetadataBase
    ⟨.hashsetLimit 0x0202020202020202, 3⟩ (by decide)).mpr rfl

/-- A limit raised by one comes back as 258. -/
theorem metadata_misread :
    ModificationMetadata.tryParse countingMetadataBase
        (ModificationMetadata.writeTo countingMetadataBase ⟨.hashsetLimit 1, 1⟩) =
      some ⟨.hashsetLimit 258, 1⟩ ∧
    ¬ ∀ metadata : ModificationMetadata UInt64,
      ModificationMetadata.tryParse countingMetadataBase
        (metadata.writeTo countingMetadataBase) = some metadata := by
  have misread : ModificationMetadata.tryParse countingMetadataBase
      (ModificationMetadata.writeTo countingMetadataBase ⟨.hashsetLimit 1, 1⟩) =
        some ⟨.hashsetLimit 258, 1⟩ := by decide
  refine ⟨misread, ?_⟩
  intro roundTrip
  have parsed := roundTrip ⟨.hashsetLimit 1, 1⟩
  rw [misread] at parsed
  exact absurd parsed (by decide)

/-! ## Sums in any grouping -/

inductive Grouping (Item : Type) where
  | single (item : Item)
  | merge (left right : Grouping Item)

namespace Grouping

variable {Item : Type}

def leaves : Grouping Item → List Item
  | .single item => [item]
  | .merge left right => left.leaves ++ right.leaves

def spine : Item → List Item → Grouping Item
  | item, [] => .single item
  | item, next :: rest => .merge (.single item) (spine next rest)

theorem leaves_spine (item : Item) (rest : List Item) :
    (spine item rest).leaves = item :: rest := by
  induction rest generalizing item with
  | nil => rfl
  | cons next rest induction => rw [spine, leaves, leaves, induction, List.singleton_append]

theorem leaves_nonempty (tree : Grouping Item) : 0 < tree.leaves.length := by
  induction tree with
  | single item => exact Nat.one_pos
  | merge left right leftNonempty _ =>
      rw [leaves, List.length_append]
      omega

theorem eq_single {tree : Grouping Item} {item : Item} (leaf : tree.leaves = [item]) :
    tree = .single item := by
  cases tree with
  | single other =>
      cases leaf
      rfl
  | merge left right =>
      have lengths := congrArg List.length leaf
      have leftNonempty := left.leaves_nonempty
      have rightNonempty := right.leaves_nonempty
      rw [leaves, List.length_append, List.length_singleton] at lengths
      omega

theorem eq_merge_of_two {tree : Grouping Item} {first second : Item}
    (pair : tree.leaves = [first, second]) : tree = .merge (.single first) (.single second) := by
  cases tree with
  | single item => cases pair
  | merge left right =>
      have lengths := congrArg List.length pair
      have leftNonempty := left.leaves_nonempty
      have rightNonempty := right.leaves_nonempty
      rw [leaves, List.length_append, List.length_cons, List.length_singleton] at lengths
      have one : left.leaves.length = [first].length := by
        rw [List.length_singleton]
        omega
      have split : left.leaves ++ right.leaves = [first] ++ [second] := pair
      obtain ⟨leftLeaf, rightLeaf⟩ := List.append_inj split one
      rw [eq_single leftLeaf, eq_single rightLeaf]

end Grouping

/-- The metadata of a node whose deltas are combined in the shape of the tree. -/
def ModificationMetadata.combine {Base : Type} (metadataBase : MetadataBase Base) :
    Grouping StorageDelta → ModificationMetadata Base
  | .single value => .fromValue metadataBase value
  | .merge left right => (combine metadataBase left).add metadataBase (combine metadataBase right)

/-! ## What the sums stand for -/

inductive MeteredType where
  | nnint64
  | hashsetLimit
  | knownSupplyAsset
  deriving DecidableEq, Repr

def StorageDelta.metered : StorageDelta → Option MeteredType
  | .nonnegativeInt64SetAdd _ => some .nnint64
  | .hashSetIncreaseLimit _ => some .hashsetLimit
  | .assetObjectAdd _ => some .knownSupplyAsset
  | _ => none

def StorageDelta.amount : StorageDelta → ℤ
  | .nonnegativeInt64SetAdd setAdd => setAdd.delta.toInt
  | .hashSetIncreaseLimit limitIncrease => limitIncrease.toNat
  | .assetObjectAdd assetDelta => assetDelta.toInt
  | _ => 0

def amountOf (deltas : List StorageDelta) : ℤ := (deltas.map StorageDelta.amount).sum

def commonType : List StorageDelta → Option MeteredType
  | [] => none
  | value :: rest => if ∀ other ∈ rest, other.metered = value.metered then value.metered else none

def exactTotal (deltas : List StorageDelta) : Option (MeteredType × ℤ) :=
  (commonType deltas).map fun type => (type, amountOf deltas)

namespace ActiveMeta

def metered : ActiveMeta → Option MeteredType
  | .none => Option.none
  | .nnint64 _ => some .nnint64
  | .hashsetLimit _ => some .hashsetLimit
  | .knownSupplyAsset _ => some .knownSupplyAsset

def total : ActiveMeta → Option (MeteredType × ℤ)
  | .none => Option.none
  | .nnint64 delta => some (.nnint64, delta.toInt)
  | .hashsetLimit delta => some (.hashsetLimit, delta.toNat)
  | .knownSupplyAsset delta => some (.knownSupplyAsset, delta.toInt)

end ActiveMeta

def MeteredType.Fits : MeteredType → ℤ → Prop
  | .hashsetLimit, sum => 0 ≤ sum ∧ sum < 2 ^ 64
  | _, sum => -2 ^ 127 ≤ sum ∧ sum < 2 ^ 127

def MeteredType.payload : MeteredType → ℤ → ActiveMeta
  | .nnint64, sum => .nnint64 (BitVec.ofInt 128 sum)
  | .hashsetLimit, sum => .hashsetLimit (UInt64.ofInt sum)
  | .knownSupplyAsset, sum => .knownSupplyAsset (BitVec.ofInt 128 sum)

theorem payload_add (type : MeteredType) (left right : ℤ) :
    (type.payload left).add (type.payload right) = type.payload (left + right) := by
  cases type with
  | nnint64 => rw [MeteredType.payload, MeteredType.payload, ActiveMeta.add, MeteredType.payload,
      BitVec.ofInt_add]
  | hashsetLimit => rw [MeteredType.payload, MeteredType.payload, ActiveMeta.add,
      MeteredType.payload, UInt64.ofInt_add]
  | knownSupplyAsset => rw [MeteredType.payload, MeteredType.payload, ActiveMeta.add,
      MeteredType.payload, BitVec.ofInt_add]

theorem payload_total {type : MeteredType} {sum : ℤ} (fits : type.Fits sum) :
    (type.payload sum).total = some (type, sum) := by
  have signed (fits : -2 ^ 127 ≤ sum ∧ sum < 2 ^ 127) : (BitVec.ofInt 128 sum).toInt = sum := by
    rw [BitVec.toInt_ofInt]
    exact Int.bmod_eq_of_le (by omega) (by omega)
  cases type with
  | nnint64 => rw [MeteredType.payload, ActiveMeta.total, signed fits]
  | knownSupplyAsset => rw [MeteredType.payload, ActiveMeta.total, signed fits]
  | hashsetLimit =>
      obtain ⟨lower, upper⟩ := fits
      have word : ((UInt64.ofInt sum).toNat : ℤ) = sum := by
        rw [UInt64.ofInt, UInt64.toNat_ofNat']
        omega
      rw [MeteredType.payload, ActiveMeta.total, word]

namespace ActiveMeta

theorem metered_none_iff (active : ActiveMeta) : active.metered = Option.none ↔ active = .none := by
  cases active <;> simp [metered]

theorem total_none_iff (active : ActiveMeta) : active.total = Option.none ↔ active = .none := by
  cases active <;> simp [total]

theorem add_none (active : ActiveMeta) : active.add .none = .none := by
  cases active <;> rfl

theorem add_apart {active other : ActiveMeta} {type : MeteredType}
    (metered_type : active.metered = some type) (apart : other.metered ≠ some type) :
    active.add other = .none := by
  cases active with
  | none => cases metered_type
  | nnint64 delta =>
      cases metered_type
      cases other with
      | nnint64 otherDelta => exact absurd rfl apart
      | _ => rfl
  | hashsetLimit delta =>
      cases metered_type
      cases other with
      | hashsetLimit otherDelta => exact absurd rfl apart
      | _ => rfl
  | knownSupplyAsset delta =>
      cases metered_type
      cases other with
      | knownSupplyAsset otherDelta => exact absurd rfl apart
      | _ => rfl

theorem add_metered {active other : ActiveMeta} (counted : active.metered ≠ Option.none) :
    (active.add other).metered = Option.none ∨ (active.add other).metered = active.metered := by
  obtain ⟨type, metered_type⟩ := Option.ne_none_iff_exists'.mp counted
  by_cases same : other.metered = some type
  · right
    cases active <;> cases other <;> cases metered_type <;> cases same <;> rfl
  · left
    rw [add_apart metered_type same]
    rfl

theorem from_value_metered (value : StorageDelta) : (fromValue value).metered = value.metered := by
  cases value <;> rfl

theorem from_value_payload {value : StorageDelta} {type : MeteredType}
    (metered_type : value.metered = some type) :
    fromValue value = type.payload value.amount := by
  cases value with
  | nonnegativeInt64SetAdd setAdd =>
      cases metered_type
      rfl
  | hashSetIncreaseLimit limitIncrease =>
      cases metered_type
      have bound := limitIncrease.toNat_lt
      have word : limitIncrease.toUInt64 = UInt64.ofInt (limitIncrease.toNat : ℤ) := by
        apply UInt64.toNat_inj.mp
        rw [UInt32.toNat_toUInt64, UInt64.ofInt, UInt64.toNat_ofNat']
        omega
      rw [fromValue, word]
      rfl
  | assetObjectAdd assetDelta =>
      cases metered_type
      rfl
  | _ => cases metered_type

end ActiveMeta

theorem amount_of_append (left right : List StorageDelta) :
    amountOf (left ++ right) = amountOf left + amountOf right := by
  simp only [amountOf, List.map_append, List.sum_append]

theorem amount_of_perm {left right : List StorageDelta} (same : left.Perm right) :
    amountOf left = amountOf right :=
  (same.map StorageDelta.amount).sum_eq

theorem common_type_iff {deltas : List StorageDelta} {type : MeteredType} :
    commonType deltas = some type ↔
      deltas ≠ [] ∧ ∀ value ∈ deltas, value.metered = some type := by
  cases deltas with
  | nil => simp [commonType]
  | cons value rest =>
      simp only [commonType, List.forall_mem_cons]
      constructor
      · intro common
        split_ifs at common with same
        exact ⟨List.cons_ne_nil _ _, common, fun other member => (same other member).trans common⟩
      · intro ⟨_, common, others⟩
        rw [if_pos fun other member => (others other member).trans common.symm, common]

section Combine

variable {Base : Type} (metadataBase : MetadataBase Base)

open ModificationMetadata

/-- Deltas of one metered type add up in any shape. -/
theorem combine_common {type : MeteredType} {tree : Grouping StorageDelta}
    (common : ∀ value ∈ tree.leaves, value.metered = some type) :
    (combine metadataBase tree).activeMeta = type.payload (amountOf tree.leaves) := by
  induction tree with
  | single value =>
      have metered_type := common value (List.mem_singleton_self value)
      have sum : amountOf [value] = value.amount := by simp [amountOf]
      rw [Grouping.leaves, sum]
      exact ActiveMeta.from_value_payload metered_type
  | merge left right leftInduction rightInduction =>
      simp only [Grouping.leaves, List.forall_mem_append] at common
      rw [combine, ModificationMetadata.add, leftInduction common.1, rightInduction common.2,
        payload_add, Grouping.leaves, amount_of_append]

theorem combine_unmetered {tree : Grouping StorageDelta}
    (unmetered : ∀ value ∈ tree.leaves, value.metered = none) :
    (combine metadataBase tree).activeMeta = .none := by
  induction tree with
  | single value =>
      apply (ActiveMeta.metered_none_iff _).mp
      exact (ActiveMeta.from_value_metered value).trans
        (unmetered value (List.mem_singleton_self value))
  | merge left right leftInduction rightInduction =>
      simp only [Grouping.leaves, List.forall_mem_append] at unmetered
      rw [combine, ModificationMetadata.add, leftInduction unmetered.1,
        rightInduction unmetered.2, ActiveMeta.add_none]

theorem combine_spine_metered {value : StorageDelta} (metered : value.metered ≠ none)
    (rest : List StorageDelta) :
    (combine metadataBase (.spine value rest)).activeMeta.metered = none ∨
      (combine metadataBase (.spine value rest)).activeMeta.metered = value.metered := by
  cases rest with
  | nil => exact .inr (ActiveMeta.from_value_metered value)
  | cons next rest =>
      have first := ActiveMeta.from_value_metered value
      rw [← first] at metered ⊢
      exact ActiveMeta.add_metered metered

end Combine

/-- All deltas are of one metered type, or none is metered, or there are just two. -/
def SumsAlike (deltas : List StorageDelta) : Prop :=
  (∃ type, commonType deltas = some type) ∨ (∀ value ∈ deltas, value.metered = none) ∨
    ∃ first second, deltas = [first, second] ∧ first.metered ≠ none ∧ second.metered ≠ none

section Orders

variable {Base : Type} (metadataBase : MetadataBase Base) {deltas : List StorageDelta}

open ModificationMetadata

/-- A metered delta that comes last takes the place of a mixture. -/
theorem mixture_forgotten {mixed : Grouping StorageDelta} {value : StorageDelta}
    (spoiled : (combine metadataBase mixed).activeMeta = .none) (metered : value.metered ≠ none) :
    (combine metadataBase (.merge mixed (.single value))).activeMeta ≠ .none := by
  intro impossible
  have last : (combine metadataBase (.merge mixed (.single value))).activeMeta =
      .fromValue value := by
    rw [combine, ModificationMetadata.add, spoiled]
    rfl
  rw [last, ← ActiveMeta.metered_none_iff, ActiveMeta.from_value_metered] at impossible
  exact metered impossible

theorem unmetered_spoils {unmetered : StorageDelta} (plain : unmetered.metered = none)
    (rest : List StorageDelta) : ∃ tree : Grouping StorageDelta,
      tree.leaves = rest ++ [unmetered] ∧ (combine metadataBase tree).activeMeta = .none := by
  have nothing : ActiveMeta.fromValue unmetered = .none :=
    (ActiveMeta.metered_none_iff _).mp ((ActiveMeta.from_value_metered unmetered).trans plain)
  cases rest with
  | nil => exact ⟨.single unmetered, rfl, nothing⟩
  | cons value rest =>
      refine ⟨.merge (.spine value rest) (.single unmetered), ?_, ?_⟩
      · rw [Grouping.leaves, Grouping.leaves_spine, Grouping.leaves]
      · rw [combine, ModificationMetadata.add, combine, fromValue, nothing, ActiveMeta.add_none]

theorem types_spoil {first second : StorageDelta} (firstMetered : first.metered ≠ none)
    (secondMetered : second.metered ≠ none) (apart : second.metered ≠ first.metered)
    (rest : List StorageDelta) :
    (combine metadataBase (.spine first (second :: rest))).activeMeta = .none := by
  obtain ⟨type, metered_type⟩ := Option.ne_none_iff_exists'.mp firstMetered
  rw [Grouping.spine, combine, ModificationMetadata.add]
  apply ActiveMeta.add_apart ((ActiveMeta.from_value_metered first).trans metered_type)
  rw [← metered_type]
  rcases combine_spine_metered metadataBase secondMetered rest with spoiled | kept
  · rw [spoiled]
    exact firstMetered.symm
  · rw [kept]
    exact apart

/-- A list with metered and unmetered deltas: these spoil the sum, and a metered one
comes last. -/
theorem partial_mixture_kept {unmetered value : StorageDelta} (plain : unmetered.metered = none)
    (member : unmetered ∈ deltas) (metered : value.metered ≠ none) (present : value ∈ deltas) :
    ∃ tree : Grouping StorageDelta, tree.leaves.Perm deltas ∧
      (combine metadataBase tree).activeMeta ≠ .none := by
  have apart : unmetered ≠ value := by
    intro same
    exact metered (same ▸ plain)
  have left : unmetered ∈ deltas.erase value := (List.mem_erase_of_ne apart).mpr member
  obtain ⟨tree, leaves, spoiled⟩ :=
    unmetered_spoils metadataBase plain ((deltas.erase value).erase unmetered)
  refine ⟨.merge tree (.single value), ?_, mixture_forgotten metadataBase spoiled metered⟩
  rw [Grouping.leaves, leaves, Grouping.leaves]
  calc
    _ = _ := rfl
    List.Perm _ (value :: ((deltas.erase value).erase unmetered ++ [unmetered])) :=
      List.perm_append_singleton _ _
    List.Perm _ (value :: unmetered :: (deltas.erase value).erase unmetered) :=
      (List.perm_append_singleton _ _).cons _
    List.Perm _ (value :: deltas.erase value) := (List.perm_cons_erase left).symm.cons _
    List.Perm _ deltas := (List.perm_cons_erase present).symm

/-- A list of three deltas or more, of two types: two spoil the sum, and a third comes
last. -/
theorem typed_mixture_kept {first second value : StorageDelta} {rest : List StorageDelta}
    (firstMetered : first.metered ≠ none) (secondMetered : second.metered ≠ none)
    (apart : second.metered ≠ first.metered) (metered : value.metered ≠ none)
    (split : deltas.Perm (second :: first :: value :: rest)) :
    ∃ tree : Grouping StorageDelta, tree.leaves.Perm deltas ∧
      (combine metadataBase tree).activeMeta ≠ .none := by
  have spoiled := types_spoil metadataBase firstMetered secondMetered apart rest
  refine ⟨.merge (.spine first (second :: rest)) (.single value), ?_,
    mixture_forgotten metadataBase spoiled metered⟩
  rw [Grouping.leaves, Grouping.leaves_spine, Grouping.leaves]
  calc
    _ = _ := rfl
    List.Perm _ (value :: first :: second :: rest) := List.perm_append_singleton _ _
    List.Perm _ (first :: value :: second :: rest) := List.Perm.swap _ _ _
    List.Perm _ (first :: second :: value :: rest) := (List.Perm.swap _ _ _).cons _
    List.Perm _ (second :: first :: value :: rest) := List.Perm.swap _ _ _
    List.Perm _ deltas := split.symm

/-- Every other list can be combined into what is not nothing. -/
theorem mixture_kept (nonempty : deltas ≠ []) (mixed : ¬ SumsAlike deltas) :
    ∃ tree : Grouping StorageDelta, tree.leaves.Perm deltas ∧
      (combine metadataBase tree).activeMeta ≠ .none := by
  obtain ⟨uncommon, more⟩ := not_or.mp mixed
  obtain ⟨some_metered, not_two⟩ := not_or.mp more
  push Not at some_metered
  by_cases plain : ∃ value ∈ deltas, value.metered = none
  · obtain ⟨unmetered, member, plain⟩ := plain
    obtain ⟨value, present, metered⟩ := some_metered
    exact partial_mixture_kept metadataBase plain member metered present
  · push Not at plain
    cases deltas with
    | nil => exact absurd rfl nonempty
    | cons second others =>
        have secondMetered := plain second List.mem_cons_self
        obtain ⟨type, metered_type⟩ := Option.ne_none_iff_exists'.mp secondMetered
        have differs : ∃ first ∈ others, first.metered ≠ second.metered := by
          by_contra same
          push Not at same
          apply uncommon
          refine ⟨type, common_type_iff.mpr ⟨List.cons_ne_nil _ _, ?_⟩⟩
          rw [List.forall_mem_cons]
          exact ⟨metered_type, fun other member => (same other member).trans metered_type⟩
        obtain ⟨first, present, apart⟩ := differs
        have firstMetered := plain first (List.mem_cons_of_mem _ present)
        have split := List.perm_cons_erase present
        cases rest : others.erase first with
        | nil =>
            rw [rest] at split
            rw [List.perm_singleton.mp split] at not_two
            exact absurd ⟨second, first, rfl, secondMetered, firstMetered⟩ not_two
        | cons value rest' =>
            rw [rest] at split
            have member : value ∈ others := split.mem_iff.mpr (by simp)
            exact typed_mixture_kept metadataBase firstMetered secondMetered apart.symm
              (plain value (List.mem_cons_of_mem _ member)) (split.cons second)

/-- Two metered deltas of different types give nothing either way. -/
theorem combine_two {first second : StorageDelta} (firstMetered : first.metered ≠ none)
    (apart : second.metered ≠ first.metered) :
    (combine metadataBase (.merge (.single first) (.single second))).activeMeta = .none := by
  obtain ⟨type, metered_type⟩ := Option.ne_none_iff_exists'.mp firstMetered
  apply ActiveMeta.add_apart ((ActiveMeta.from_value_metered first).trans metered_type)
  rw [← metered_type]
  exact fun same => apart ((ActiveMeta.from_value_metered second).symm.trans same)

/-- Every order and grouping gives the common type with the exact sum, or nothing
where there is no common type, exactly for these lists: of one metered type, without
metered deltas, or of two deltas. -/
theorem metadata_sums_alike_iff (nonempty : deltas ≠ [])
    (fits : ∀ type, commonType deltas = some type → type.Fits (amountOf deltas)) :
    (∀ tree : Grouping StorageDelta, tree.leaves.Perm deltas →
      (combine metadataBase tree).activeMeta.total = exactTotal deltas) ↔ SumsAlike deltas := by
  constructor
  · intro alike
    by_contra mixed
    obtain ⟨tree, leaves, kept⟩ := mixture_kept metadataBase nonempty mixed
    have uncommon : commonType deltas = none := by
      apply Option.eq_none_iff_forall_ne_some.mpr
      intro type common
      exact mixed (.inl ⟨type, common⟩)
    have total := alike tree leaves
    rw [exactTotal, uncommon, Option.map_none, ActiveMeta.total_none_iff] at total
    exact kept total
  · intro alike tree leaves
    have uncommon (apart : ∀ type, commonType deltas ≠ some type) : exactTotal deltas = none := by
      rw [exactTotal, Option.eq_none_iff_forall_ne_some.mpr apart, Option.map_none]
    by_cases common : ∃ type, commonType deltas = some type
    · obtain ⟨type, common⟩ := common
      have members := (common_type_iff.mp common).2
      have sum := combine_common metadataBase
        fun value member => members value (leaves.mem_iff.mp member)
      rw [sum, amount_of_perm leaves, payload_total (fits type common), exactTotal, common,
        Option.map_some]
    · have apart : ∀ type, commonType deltas ≠ some type := fun type same => common ⟨type, same⟩
      rw [uncommon apart, ActiveMeta.total_none_iff]
      rcases alike with common' | unmetered | ⟨first, second, rfl, firstMetered, secondMetered⟩
      · exact absurd common' common
      · exact combine_unmetered metadataBase
          fun value member => unmetered value (leaves.mem_iff.mp member)
      · have differ : second.metered ≠ first.metered := by
          intro same
          obtain ⟨type, metered_type⟩ := Option.ne_none_iff_exists'.mp firstMetered
          apply apart type
          simp only [commonType, List.mem_singleton, forall_eq]
          rw [if_pos same, metered_type]
        rcases List.perm_pair.mp leaves with pair | pair
        · rw [Grouping.eq_merge_of_two pair]
          exact combine_two metadataBase firstMetered differ
        · rw [Grouping.eq_merge_of_two pair]
          exact combine_two metadataBase secondMetered (Ne.symm differ)

end Orders

/-- Two integers, and an asset of the same block between them. -/
def mixedDeltas : List StorageDelta :=
  [.nonnegativeInt64SetAdd { setValue := 1, delta := 100 }, .assetObjectAdd 0,
    .nonnegativeInt64SetAdd { setValue := 1, delta := 200 }]

theorem metadata_sums_alike_iff_pair :
    SumsAlike [.assetObjectAdd 5, .assetObjectAdd (-7)] ∧
      (ModificationMetadata.combine countingMetadataBase
        (.merge (.single (.assetObjectAdd (-7))) (.single (.assetObjectAdd 5)))).activeMeta.total =
          some (.knownSupplyAsset, -2) := by
  have alike : SumsAlike [.assetObjectAdd 5, .assetObjectAdd (-7)] :=
    .inl ⟨.knownSupplyAsset, rfl⟩
  have nonempty : [StorageDelta.assetObjectAdd 5, .assetObjectAdd (-7)] ≠ [] :=
    List.cons_ne_nil _ _
  have fits : ∀ type, commonType [.assetObjectAdd 5, .assetObjectAdd (-7)] = some type →
      type.Fits (amountOf [.assetObjectAdd 5, .assetObjectAdd (-7)]) := by
    intro type common
    cases common
    exact ⟨by decide, by decide⟩
  exact ⟨alike, (metadata_sums_alike_iff countingMetadataBase nonempty fits).mpr alike _
    (List.Perm.swap _ _ _)⟩

/-- The first and the last delta are kept or lost with the shape of the tree. -/
theorem metadata_sums_differ :
    (ModificationMetadata.combine countingMetadataBase
        (.merge (.merge (.single mixedDeltas[0]) (.single mixedDeltas[1]))
          (.single mixedDeltas[2]))).activeMeta.total = some (.nnint64, 200) ∧
    (ModificationMetadata.combine countingMetadataBase
        (.merge (.single mixedDeltas[0])
          (.merge (.single mixedDeltas[1]) (.single mixedDeltas[2])))).activeMeta.total = none ∧
    exactTotal mixedDeltas = none := by
  decide

end Scs
