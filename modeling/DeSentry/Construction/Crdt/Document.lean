import DeSentry.Construction.Common.Json
import DeSentry.Construction.Crdt.Hlc

/-!
# The document CRDT (`crdt/document.h`, `crdt/document.cpp`)

`CrdtValue` mirrors the shape of a JSON value; every node carries a stamp and a tombstone flag,
and every array element a tag.  The five scalar kinds share one constructor.  The model has
every function of the file: construction from JSON, the diffing update, merge, materialization,
the binary codec, and the two read-only queries.

* `NextTag` takes its sequence number from a process-wide counter, so the functions that create
  elements pass the counter through: they take its value and return it with their result.
* Lists are walked by a second function of each mutual block, in the order of the source loop.
  A hash join keeps its index as a list: `bmap[k] = &v` in order means that the last entry of a
  key wins, so the index is the reversed list under first-match lookup.
* `std::sort` leaves the order of entries with equal keys open; `sortBy` is stable.  The two agree
  on lists with distinct keys.
* `reserve` calls only bound allocations and are left out.
* `DecodeAt` counts depth upwards to a cap; here the remaining depth is the recursion's fuel.
-/

namespace DeSentry

open ByteCodec KeyedList ByteWriter

/-- `CrdtArrayElem`. -/
structure CrdtArrayElem (V : Type) where
  tag : Bytes
  value : V
  tombstone : Bool := false
  deriving Repr

/-- `CrdtValue`: the stamp, the tombstone flag, and the content of the node's kind. -/
inductive CrdtValue where
  | scalar (ts : HLCTimestamp) (tombstone : Bool) (s : Scalar)
  | array (ts : HLCTimestamp) (tombstone : Bool) (elems : List (CrdtArrayElem CrdtValue))
  | object (ts : HLCTimestamp) (tombstone : Bool) (fields : List (Bytes × CrdtValue))
  deriving Repr

namespace CrdtValue

/-- Induction over a document tree, with the hypothesis for every element and field. -/
@[elab_as_elim, induction_eliminator]
theorem induct {P : CrdtValue → Prop} (scalar : ∀ ts d s, P (.scalar ts d s))
    (array : ∀ ts d elems, (∀ e ∈ elems, P e.value) → P (.array ts d elems))
    (object : ∀ ts d fields, (∀ f ∈ fields, P f.2) → P (.object ts d fields)) : ∀ v, P v :=
  @CrdtValue.rec P (fun es => ∀ e ∈ es, P e.value) (fun fs => ∀ f ∈ fs, P f.2)
    (fun e => P e.value) (fun f => P f.2)
    scalar array object
    (fun _ h => absurd h List.not_mem_nil)
    (fun _ _ he hes => List.forall_mem_cons.mpr ⟨he, hes⟩)
    (fun _ h => absurd h List.not_mem_nil)
    (fun _ _ hf hfs => List.forall_mem_cons.mpr ⟨hf, hfs⟩)
    (fun _ _ _ h => h) (fun _ _ h => h)

/-- `CrdtValue::ts`. -/
def ts : CrdtValue → HLCTimestamp
  | scalar ts _ _ => ts
  | array ts _ _ => ts
  | object ts _ _ => ts

/-- `CrdtValue::tombstone`. -/
def tombstone : CrdtValue → Bool
  | scalar _ d _ => d
  | array _ d _ => d
  | object _ d _ => d

/-- `CrdtValue::NextTag` with the sequence number `fetch_add` returned. -/
def nextTag (ts : HLCTimestamp) (seq : UInt64) : Bytes :=
  ts.nodeId ++ 58 :: decimal ts.physicalMs.toNat ++ 46 :: decimal ts.logical.toNat ++
    35 :: decimal seq.toNat

/-- `CrdtValue::MakeTombstone`. -/
def makeTombstone (ts : HLCTimestamp) : CrdtValue := .scalar ts true .null

/-! ## Comparison and construction -/

/-- The scalar cases of `CrdtValue::JsonEquals`.  Numbers of different types are compared as
doubles. -/
def scalarEquals : Scalar → Scalar → Bool
  | .null, .null => true
  | .bool a, .bool b => a == b
  | .int a, .int b => a == b
  | .double a, .double b => a.eq b
  | .str a, .str b => a == b
  | a, b => a.isNumber && b.isNumber && a.asDouble.eq b.asDouble

mutual
/-- `CrdtValue::JsonEquals`. -/
def jsonEquals : JsonValue → JsonValue → Bool
  | .scalar a, .scalar b => scalarEquals a b
  | .array xs, .array ys => jsonEqualsItems xs ys
  | .object fs, .object gs => fs.length == gs.length && jsonEqualsFields fs (.object gs)
  | _, _ => false

/-- The array case: equal sizes and pairwise equal items. -/
def jsonEqualsItems : List JsonValue → List JsonValue → Bool
  | [], [] => true
  | x :: xs, y :: ys => jsonEquals x y && jsonEqualsItems xs ys
  | _, _ => false

/-- The loop of the object case: every field is found in the other object, with an equal value. -/
def jsonEqualsFields : List (Bytes × JsonValue) → JsonValue → Bool
  | [], _ => true
  | (k, v) :: fs, b =>
    (match b.find k with
      | some other => jsonEquals v other
      | none => false) && jsonEqualsFields fs b
end

mutual
/-- `CrdtValue::FromJson`, with the tag counter before and after. -/
def fromJson (ts : HLCTimestamp) : JsonValue → UInt64 → CrdtValue × UInt64
  | .scalar s, seq => (.scalar ts false s, seq)
  | .array items, seq =>
    let r := fromJsonItems ts items seq
    (.array ts false r.1, r.2)
  | .object fields, seq =>
    let r := fromJsonFields ts fields seq
    (.object ts false r.1, r.2)

/-- The array loop of `FromJson`; the element's own tag is drawn before those inside it. -/
def fromJsonItems (ts : HLCTimestamp) :
    List JsonValue → UInt64 → List (CrdtArrayElem CrdtValue) × UInt64
  | [], seq => ([], seq)
  | x :: xs, seq =>
    let v := fromJson ts x (seq + 1)
    let r := fromJsonItems ts xs v.2
    (⟨nextTag ts seq, v.1, false⟩ :: r.1, r.2)

/-- The object loop of `FromJson`. -/
def fromJsonFields (ts : HLCTimestamp) :
    List (Bytes × JsonValue) → UInt64 → List (Bytes × CrdtValue) × UInt64
  | [], seq => ([], seq)
  | (k, x) :: fs, seq =>
    let v := fromJson ts x seq
    let r := fromJsonFields ts fs v.2
    ((k, v.1) :: r.1, r.2)
end

/-! ## Materialization -/

mutual
/-- `CrdtValue::ToJson`: what is visible, without tombstones and removed elements. -/
def toJson : CrdtValue → JsonValue
  | .scalar _ d s => if d then .scalar .null else .scalar s
  | .array _ d elems => if d then .scalar .null else .array (toJsonElems elems)
  | .object _ d fields => if d then .scalar .null else .object (toJsonFields fields)

/-- The array loop of `ToJson`. -/
def toJsonElems : List (CrdtArrayElem CrdtValue) → List JsonValue
  | [] => []
  | ⟨_, v, d⟩ :: es => if d then toJsonElems es else toJson v :: toJsonElems es

/-- The object loop of `ToJson`. -/
def toJsonFields : List (Bytes × CrdtValue) → List (Bytes × JsonValue)
  | [] => []
  | (k, v) :: fs => if v.tombstone then toJsonFields fs else (k, toJson v) :: toJsonFields fs
end

/-- `CrdtValue::IsEmpty`. -/
def isEmpty : CrdtValue → Bool
  | .object _ _ fields => fields.all fun f => f.2.tombstone
  | v => v.tombstone

mutual
/-- `CrdtValue::MaxTimestamp`. -/
def maxTimestamp : CrdtValue → HLCTimestamp
  | .scalar ts _ _ => ts
  | .array ts _ elems => maxTimestampElems ts elems
  | .object ts _ fields => maxTimestampFields ts fields

/-- The array loop of `MaxTimestamp`, with the best stamp so far. -/
def maxTimestampElems : HLCTimestamp → List (CrdtArrayElem CrdtValue) → HLCTimestamp
  | best, [] => best
  | best, ⟨_, v, _⟩ :: es =>
    maxTimestampElems (if maxTimestamp v > best then maxTimestamp v else best) es

/-- The object loop of `MaxTimestamp`. -/
def maxTimestampFields : HLCTimestamp → List (Bytes × CrdtValue) → HLCTimestamp
  | best, [] => best
  | best, (_, v) :: fs =>
    maxTimestampFields (if maxTimestamp v > best then maxTimestamp v else best) fs
end

/-! ## The diffing update -/

/-- The inner loop of the array case of `ApplyJsonUpdate`: the first previous element that is
neither matched nor removed and shows the given value, with the flags after marking it. -/
def takeMatch (item : JsonValue) : List (CrdtArrayElem CrdtValue × Bool) →
    Option (CrdtArrayElem CrdtValue × List (CrdtArrayElem CrdtValue × Bool))
  | [] => none
  | (e, matched) :: rest =>
    if !(matched || e.tombstone) && jsonEquals e.value.toJson item then
      some (e, (e, true) :: rest)
    else (takeMatch item rest).map fun r => (r.1, (e, matched) :: r.2)

/-- The outer loop of the array case: new items keep the element they match and get a fresh
tag otherwise.  Returns the elements, the final flags and the tag counter. -/
def updateElems (ts : HLCTimestamp) : List JsonValue → List (CrdtArrayElem CrdtValue × Bool) →
    UInt64 → List (CrdtArrayElem CrdtValue) × List (CrdtArrayElem CrdtValue × Bool) × UInt64
  | [], slots, seq => ([], slots, seq)
  | x :: xs, slots, seq =>
    match takeMatch x slots with
    | some (e, slots') =>
      let r := updateElems ts xs slots' seq
      (e :: r.1, r.2)
    | none =>
      let v := fromJson ts x (seq + 1)
      let r := updateElems ts xs slots v.2
      (⟨nextTag ts seq, v.1, false⟩ :: r.1, r.2)

/-- The last loop of the array case: unmatched previous elements are carried forward removed. -/
def removedElems (slots : List (CrdtArrayElem CrdtValue × Bool)) :
    List (CrdtArrayElem CrdtValue) :=
  (slots.filter fun s => !s.2).map fun s => { s.1 with tombstone := true }

/-- The last loop of the object case: previous fields the new object lacks are tombstoned,
fields already gone are carried forward. -/
def removedFields (ts : HLCTimestamp) (newJson : JsonValue) (previous : List (Bytes × CrdtValue)) :
    List (Bytes × CrdtValue) :=
  (previous.filter fun f => !newJson.has f.1).map fun f =>
    if f.2.tombstone then f else (f.1, makeTombstone ts)

mutual
/-- `CrdtValue::ApplyJsonUpdate`, with the tag counter before and after. -/
def applyJsonUpdate (ts : HLCTimestamp) (previous : CrdtValue) (newJson : JsonValue)
    (seq : UInt64) : CrdtValue × UInt64 :=
  if !previous.tombstone && jsonEquals previous.toJson newJson then (previous, seq)
  else
    match previous, newJson with
    | .object _ false pfs, .object fields =>
      let r := updateFields ts pfs fields seq
      (.object ts false (r.1 ++ removedFields ts (.object fields) pfs), r.2)
    | .array _ false pes, .array items =>
      let r := updateElems ts items (pes.map fun e => (e, false)) seq
      (.array ts false (r.1 ++ removedElems r.2.1), r.2.2)
    | _, newJson => fromJson ts newJson seq

/-- The first loop of the object case: every new field is diffed against the first previous
field of its name. -/
def updateFields (ts : HLCTimestamp) (previous : List (Bytes × CrdtValue)) :
    List (Bytes × JsonValue) → UInt64 → List (Bytes × CrdtValue) × UInt64
  | [], seq => ([], seq)
  | (k, x) :: fs, seq =>
    let v := match lookup Prod.fst k previous with
      | some f => applyJsonUpdate ts f.2 x seq
      | none => fromJson ts x seq
    let r := updateFields ts previous fs v.2
    ((k, v.1) :: r.1, r.2)
end

/-! ## Merge -/

/-- Whole-node last-writer-wins: `(b.ts_ > a.ts_) ? b : a`. -/
def later (a b : CrdtValue) : CrdtValue := if b.ts > a.ts then b else a

mutual
/-- `CrdtValue::Merge`. -/
def merge (a b : CrdtValue) : CrdtValue :=
  if a.tombstone || b.tombstone then later a b
  else
    match a, b with
    | .object ta _ fa, .object tb _ fb =>
      let r := mergeFields fa fb.reverse
      .object (if tb > ta then tb else ta) false
        (sortBy Prod.fst (r.1 ++ fb.filter fun f => (lookup Prod.fst f.1 r.2).isSome))
    | .array ta _ ea, .array tb _ eb =>
      let r := mergeElems ea eb.reverse
      .array (if tb > ta then tb else ta) false
        (sortBy CrdtArrayElem.tag
          (r.1 ++ eb.filter fun e => (lookup CrdtArrayElem.tag e.tag r.2).isSome))
    | a, b => later a b

/-- The join loop of the object case: the fields of `a`, and the index that is left. -/
def mergeFields : List (Bytes × CrdtValue) → List (Bytes × CrdtValue) →
    List (Bytes × CrdtValue) × List (Bytes × CrdtValue)
  | [], bmap => ([], bmap)
  | (k, av) :: fa, bmap =>
    match lookup Prod.fst k bmap with
    | some f =>
      let r := mergeFields fa (bmap.filter fun x => decide (x.1 ≠ k))
      ((k, merge av f.2) :: r.1, r.2)
    | none =>
      let r := mergeFields fa bmap
      ((k, av) :: r.1, r.2)

/-- The join loop of the array case; removal is sticky. -/
def mergeElems : List (CrdtArrayElem CrdtValue) → List (CrdtArrayElem CrdtValue) →
    List (CrdtArrayElem CrdtValue) × List (CrdtArrayElem CrdtValue)
  | [], bmap => ([], bmap)
  | ⟨tag, av, ad⟩ :: ea, bmap =>
    match lookup CrdtArrayElem.tag tag bmap with
    | some be =>
      let r := mergeElems ea (bmap.filter fun x => decide (x.tag ≠ tag))
      (⟨tag, merge av be.value, ad || be.tombstone⟩ :: r.1, r.2)
    | none =>
      let r := mergeElems ea bmap
      (⟨tag, av, ad⟩ :: r.1, r.2)
end

/-! ## The binary codec -/

/-- The `WireKind` of a scalar. -/
def scalarKind : Scalar → UInt8
  | .null => 0
  | .bool _ => 1
  | .int _ => 2
  | .double _ => 3
  | .str _ => 4

/-- The payload of a scalar node. -/
def encodeScalar : Scalar → Bytes
  | .null => []
  | .bool b => u8 (if b then 1 else 0)
  | .int i => i64 i
  | .double d => f64 d
  | .str s => bytes s

/-- The common head of an encoded node: kind, tombstone flag, stamp. -/
def encodeHeader (kind : UInt8) (d : Bool) (ts : HLCTimestamp) : Bytes :=
  u8 kind ++ u8 (if d then 1 else 0) ++ bytes ts.encode

mutual
/-- `CrdtValue::Encode`.  The children are encoded first and their encodings sorted, which
writes the same bytes as sorting pointers to them and encoding each in turn. -/
def encode : CrdtValue → Bytes
  | .scalar ts d s => encodeHeader (scalarKind s) d ts ++ encodeScalar s
  | .array ts d elems =>
    encodeHeader 5 d ts ++ u32 (UInt32.ofNat elems.length) ++
      ((sortBy Prod.fst (encodeElems elems)).map Prod.snd).flatten
  | .object ts d fields =>
    encodeHeader 6 d ts ++ u32 (UInt32.ofNat fields.length) ++
      ((sortBy Prod.fst (encodeFields fields)).map Prod.snd).flatten

/-- The tag of each element with what the loop of `Encode` writes for it. -/
def encodeElems : List (CrdtArrayElem CrdtValue) → List (Bytes × Bytes)
  | [] => []
  | ⟨tag, v, d⟩ :: es =>
    (tag, bytes tag ++ u8 (if d then 1 else 0) ++
      bytes (encode v)) :: encodeElems es

/-- The name of each field with what the loop of `Encode` writes for it. -/
def encodeFields : List (Bytes × CrdtValue) → List (Bytes × Bytes)
  | [] => []
  | (k, v) :: fs => (k, bytes k ++ bytes (encode v)) :: encodeFields fs
end

/-- `CrdtValue::kMaxDecodeDepth`. -/
def kMaxDecodeDepth : ℕ := 64

/-- The switch of `DecodeAt` on the kind byte, with the reader of a length-prefixed child as a
parameter.  A byte outside `WireKind` leaves the default null. -/
def readPayload (child : ByteReader CrdtValue) (ts : HLCTimestamp) (tombstone : Bool)
    (wk : UInt8) : ByteReader CrdtValue :=
  match wk with
  | 1 => do
    let b ← ByteReader.u8
    pure (.scalar ts tombstone (.bool (b != 0)))
  | 2 => do
    let i ← ByteReader.i64
    pure (.scalar ts tombstone (.int i))
  | 3 => do
    let x ← ByteReader.f64
    pure (.scalar ts tombstone (.double x))
  | 4 => do
    let s ← ByteReader.bytes
    pure (.scalar ts tombstone (.str s))
  | 5 => do
    let n ← ByteReader.u32
    let elems ← many (do
      let tag ← ByteReader.bytes
      let d ← ByteReader.u8
      let value ← child
      pure { tag := tag, value := value, tombstone := d != 0 }) n.toNat
    pure (.array ts tombstone elems)
  | 6 => do
    let n ← ByteReader.u32
    let fields ← many (do
      let k ← ByteReader.bytes
      let value ← child
      pure (k, value)) n.toNat
    pure (.object ts tombstone fields)
  | _ => pure (.scalar ts tombstone .null)

/-- The body of `DecodeAt`: kind, tombstone flag and stamp, then the payload. -/
def readNode (child : ByteReader CrdtValue) : ByteReader CrdtValue := do
  let wk ← ByteReader.u8
  let d ← ByteReader.u8
  let tsBytes ← ByteReader.bytes
  readPayload child (HLCTimestamp.decode tsBytes) (d != 0) wk

/-- `CrdtValue::DecodeAt`, where `fuel` is the number of levels still allowed,
`kMaxDecodeDepth + 1 - depth`.  Bytes behind the node are ignored. -/
def decodeAt : ℕ → Bytes → Except String CrdtValue
  | 0, _ => .error "CRDT nesting exceeds depth cap"
  | fuel + 1, bytes => do
    let r ← (readNode do
      let body ← ByteReader.bytes
      StateT.lift (decodeAt fuel body)).run bytes
    pure r.1

/-- `CrdtValue::Decode`. -/
def decode (bytes : Bytes) : Except String CrdtValue := decodeAt (kMaxDecodeDepth + 1) bytes

end CrdtValue

end DeSentry
