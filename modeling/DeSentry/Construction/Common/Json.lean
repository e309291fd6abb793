import DeSentry.Construction.Common.ByteBuffer
import DeSentry.Framework.KeyedList

/-!
# JSON values (`common/json.h`)

`JsonValue` with its seven types.  The five scalar types are collected in `Scalar`, which the
document layer shares.  An object is an insertion-ordered list of fields; the parser accepts
repeated names, so distinctness of the names is a predicate (`UniqueKeys`) and not part of the
type.  Text is a byte string: nothing here looks inside it.

The textual parser and the serializers are not part of this file.
-/

namespace DeSentry

open ByteCodec KeyedList
open List hiding lookup

/-- The scalar types of `JsonType` with their values. -/
inductive Scalar where
  | null
  | bool (b : Bool)
  | int (i : Int64)
  | double (d : Double)
  | str (s : Bytes)
  deriving DecidableEq, Repr

namespace Scalar

/-- `JsonValue::is_number`. -/
def isNumber : Scalar → Bool
  | int _ => true
  | double _ => true
  | _ => false

/-- `JsonValue::AsDouble`; the member it reads is zero for the other types. -/
def asDouble : Scalar → Double
  | int i => Double.ofInt i
  | double d => d
  | _ => ⟨0⟩

/-- `JsonValue::AsInt`. -/
def asInt : Scalar → Int64
  | int i => i
  | double d => d.toInt64
  | _ => 0

end Scalar

/-- `JsonValue`. -/
inductive JsonValue where
  | scalar (s : Scalar)
  | array (items : List JsonValue)
  | object (fields : List (Bytes × JsonValue))
  deriving Repr

variable (j : JsonValue) (key : Bytes)

namespace JsonValue

/-- Induction over a JSON value, with the hypothesis for every item and every field. -/
@[elab_as_elim, induction_eliminator]
theorem induct {P : JsonValue → Prop} (scalar : ∀ s, P (.scalar s))
    (array : ∀ items, (∀ x ∈ items, P x) → P (.array items))
    (object : ∀ fields, (∀ f ∈ fields, P f.2) → P (.object fields)) : ∀ j, P j :=
  @JsonValue.rec P (fun xs => ∀ x ∈ xs, P x) (fun fs => ∀ f ∈ fs, P f.2) (fun f => P f.2)
    scalar array object
    (fun _ h => absurd h not_mem_nil)
    (fun _ _ hx hxs => forall_mem_cons.mpr ⟨hx, hxs⟩)
    (fun _ h => absurd h not_mem_nil)
    (fun _ _ hf hfs => forall_mem_cons.mpr ⟨hf, hfs⟩)
    (fun _ _ h => h)

/-- The fields of an object; `AsObject` is empty on the other types. -/
def fields : JsonValue → List (Bytes × JsonValue)
  | object fs => fs
  | _ => []

/-- `JsonValue::Find`: the first field of the given name. -/
def find : Option JsonValue :=
  (lookup Prod.fst key j.fields).map Prod.snd

/-- `JsonValue::Has`. -/
def has : Bool := (j.find key).isSome

/-- `JsonValue::is_object`. -/
def isObject : JsonValue → Bool
  | object _ => true
  | _ => false

/-- The value of a string, `is_string` included. -/
def asString : JsonValue → Option Bytes
  | scalar (.str s) => some s
  | _ => none

/-- The value of a boolean, `is_bool` included. -/
def asBool : JsonValue → Option Bool
  | scalar (.bool b) => some b
  | _ => none

/-- `AsInt` of a number, `is_number` included. -/
def asNumber : JsonValue → Option Int64
  | scalar s => if s.isNumber then some s.asInt else none
  | _ => none

/-- The items of an array; `AsArray` is empty on the other types. -/
def items : JsonValue → List JsonValue
  | array xs => xs
  | _ => []

/-! ## Nodes -/

mutual
/-- Every value inside a value, itself included. -/
def nodes : JsonValue → List JsonValue
  | .scalar s => [.scalar s]
  | .array items => .array items :: nodesItems items
  | .object fields => .object fields :: nodesFields fields

/-- `nodes` of the items of an array. -/
def nodesItems : List JsonValue → List JsonValue
  | [] => []
  | x :: xs => nodes x ++ nodesItems xs

/-- `nodes` of the fields of an object. -/
def nodesFields : List (Bytes × JsonValue) → List JsonValue
  | [] => []
  | (_, x) :: fs => nodes x ++ nodesFields fs
end

lemma nodesItems_eq (items : List JsonValue) : nodesItems items = items.flatMap nodes := by
  induction items with
  | nil => rfl
  | cons x xs ih => simp [nodesItems, ih]

lemma nodesFields_eq (fields : List (Bytes × JsonValue)) :
    nodesFields fields = fields.flatMap fun f => nodes f.2 := by
  induction fields with
  | nil => rfl
  | cons f fs ih => simp [nodesFields, ih]

/-- Every object has distinct field names, at every level. -/
def UniqueKeys : Prop := ∀ x ∈ j.nodes, Distinct Prod.fst x.fields

instance (j : JsonValue) : Decidable j.UniqueKeys := inferInstanceAs (Decidable (∀ x ∈ _, _))

@[simp] lemma uniqueKeys_scalar (s : Scalar) : UniqueKeys (.scalar s) := by
  simp [UniqueKeys, nodes, fields, Distinct]

@[simp] lemma uniqueKeys_array (items : List JsonValue) :
    UniqueKeys (.array items) ↔ ∀ x ∈ items, x.UniqueKeys := by
  simp only [UniqueKeys, nodes, nodesItems_eq, forall_mem_cons, mem_flatMap]
  constructor
  · exact fun h x hx y hy => h.2 y ⟨x, hx, hy⟩
  · exact fun h => ⟨nodup_nil, fun y ⟨x, hx, hy⟩ => h x hx y hy⟩

@[simp] lemma uniqueKeys_object (fs : List (Bytes × JsonValue)) :
    UniqueKeys (.object fs) ↔ Distinct Prod.fst fs ∧ ∀ f ∈ fs, f.2.UniqueKeys := by
  simp only [UniqueKeys, nodes, nodesFields_eq, forall_mem_cons, mem_flatMap]
  constructor
  · exact fun h => ⟨h.1, fun f hf y hy => h.2 y ⟨f, hf, hy⟩⟩
  · exact fun h => ⟨h.1, fun y ⟨f, hf, hy⟩ => h.2 f hf y hy⟩

/-- With distinct names, `Find` returns each field's own value. -/
lemma find_of_mem {fs : List (Bytes × JsonValue)} (h : Distinct Prod.fst fs)
    {f : Bytes × JsonValue} (hf : f ∈ fs) : (object fs).find f.1 = some f.2 := by
  rw [find, fields, lookup_of_mem h hf]
  rfl

end JsonValue

end DeSentry
