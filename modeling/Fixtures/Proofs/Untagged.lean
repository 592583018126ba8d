import Fixtures.Proofs.Dict
import Fixtures.Value.Json
/-!
# Values read back from JSON

JSON does not say the kind of a value. What is read back is the value with
every entity as a map of its type name and its attributes, and with nil for
every float that is not finite (`untagged`). So a value is read back as it was
if and only if JSON has all its kinds (`Native`). Integers and whole floats
stay apart.
-/

namespace Fixtures

/-! ## What JSON tells of a value -/

mutual

/-- The value with an entity as a map, and nil for a float that is not finite, at every level. -/
def Value.untagged : Value → Value
  | .number x => if x.isFinite then .number x else .nil
  | .list items => .list (untaggedItems items)
  | .map fields => .map (untaggedFields fields)
  | .entity e => e.untagged
  | v => v

def Entity.untagged : Entity → Value
  | ⟨typeName, attributes⟩ =>
    .map [("attributes", .map (untaggedFields attributes)), ("entity_type", .string typeName)]

def untaggedItems : List Value → List Value
  | [] => []
  | v :: rest => v.untagged :: untaggedItems rest

def untaggedFields : List (String × Value) → List (String × Value)
  | [] => []
  | (name, v) :: rest => (name, v.untagged) :: untaggedFields rest

end

namespace Value

/-- As every value is in memory: the names of a map ascend, and so do those of an entity's attributes. -/
inductive Ordered : Value → Prop
  | nil : Ordered nil
  | bool (b : Bool) : Ordered (bool b)
  | integer (n : Int64) : Ordered (integer n)
  | number (x : Float) : Ordered (number x)
  | string (s : String) : Ordered (string s)
  | list {items : List Value} (parts : ∀ v ∈ items, Ordered v) : Ordered (list items)
  | map {fields : List (String × Value)} (ascending : Dict.Ascending fields)
    (parts : ∀ p ∈ fields, Ordered p.2) : Ordered (map fields)
  | entity {typeName : String} {attributes : List (String × Value)} (ascending : Dict.Ascending attributes)
    (parts : ∀ p ∈ attributes, Ordered p.2) : Ordered (entity ⟨typeName, attributes⟩)

/-- No entity is in the value, and no float that is not finite. -/
inductive Native : Value → Prop
  | nil : Native nil
  | bool (b : Bool) : Native (bool b)
  | integer (n : Int64) : Native (integer n)
  | number {x : Float} (finite : x.isFinite = true) : Native (number x)
  | string (s : String) : Native (string s)
  | list {items : List Value} (parts : ∀ v ∈ items, Native v) : Native (list items)
  | map {fields : List (String × Value)} (parts : ∀ p ∈ fields, Native p.2) : Native (map fields)

/-! ## Parts -/

theorem untaggedItems_eq (items : List Value) : untaggedItems items = items.map untagged := by
  induction items with
  | nil => rfl
  | cons v rest ih => rw [untaggedItems, ih, List.map_cons]

theorem untaggedFields_eq (fields : List (String × Value)) :
    untaggedFields fields = fields.map fun p => (p.1, p.2.untagged) := by
  induction fields with
  | nil => rfl
  | cons p rest ih => rw [untaggedFields, ih, List.map_cons]

/-- The names stay. -/
theorem ascending_untaggedFields {fields : List (String × Value)} (h : Dict.Ascending fields) :
    Dict.Ascending (untaggedFields fields) := by
  rw [untaggedFields_eq]
  exact List.pairwise_map.2 h

theorem itemsOfJson_itemsToJson {items : List Value} (h : ∀ v ∈ items, ofJson v.toJson = v.untagged) :
    itemsOfJson (itemsToJson items) = untaggedItems items := by
  induction items with
  | nil => rfl
  | cons v rest ih =>
    rw [itemsToJson, itemsOfJson, untaggedItems, h v List.mem_cons_self,
      ih fun u hu => h u (List.mem_cons_of_mem _ hu)]

theorem fieldsOfJson_fieldsToJson {fields : List (String × Value)}
    (h : ∀ p ∈ fields, ofJson p.2.toJson = p.2.untagged) :
    fieldsOfJson (fieldsToJson fields) = untaggedFields fields := by
  induction fields with
  | nil => rfl
  | cons p rest ih =>
    obtain ⟨name, v⟩ := p
    rw [fieldsToJson, fieldsOfJson, untaggedFields, h (name, v) List.mem_cons_self,
      ih fun q hq => h q (List.mem_cons_of_mem _ hq)]

/-! ## Whole values -/

/-- An object is read as a map in the order of its names, which fields in order have already. -/
theorem ofJson_object {fields : List (String × Value)} (h : Dict.Ascending fields)
    (parts : ∀ p ∈ fields, ofJson p.2.toJson = p.2.untagged) :
    ofJson (.object (fieldsToJson fields)) = map (untaggedFields fields) := by
  rw [ofJson, fieldsOfJson_fieldsToJson parts, Dict.ofPairs_eq (ascending_untaggedFields h)]

theorem ofJson_toJson {v : Value} (h : v.Ordered) : ofJson v.toJson = v.untagged := by
  induction h with
  | nil | bool | string => rfl
  | integer n =>
    rw [toJson, ofJson, Decimal.word?_toInt]
    rfl
  | number x =>
    rw [toJson, untagged]
    split <;> rfl
  | list parts ih => rw [toJson, ofJson, itemsOfJson_itemsToJson ih, untagged]
  | map ascending parts ih => rw [toJson, ofJson_object ascending ih, untagged]
  | @entity typeName attributes ascending parts ih =>
    have hbelow : compare "attributes" "entity_type" = .lt := by decide
    rw [toJson, Entity.toJson, ofJson, fieldsOfJson, fieldsOfJson, fieldsOfJson, ofJson_object ascending ih, ofJson,
      untagged, Entity.untagged]
    simp only [Dict.ofPairs, Dict.extend, List.foldl_cons, List.foldl_nil, Dict.insert, hbelow]

theorem native_fields {fields : List (String × Value)} (h : ∀ p ∈ fields, p.2.untagged.Native) :
    (map (untaggedFields fields)).Native := by
  refine .map fun q hq => ?_
  rw [untaggedFields_eq] at hq
  obtain ⟨p, hp, rfl⟩ := List.mem_map.1 hq
  exact h p hp

/-- Nothing is left that JSON has no kind for. -/
theorem untagged_native {v : Value} (h : v.Ordered) : v.untagged.Native := by
  induction h with
  | nil => exact .nil
  | bool b => exact .bool b
  | integer n => exact .integer n
  | number x =>
    rw [untagged]
    split
    · rename_i hfinite
      exact .number hfinite
    · exact .nil
  | string s => exact .string s
  | list parts ih =>
    refine .list fun w hw => ?_
    rw [untaggedItems_eq] at hw
    obtain ⟨v, hv, rfl⟩ := List.mem_map.1 hw
    exact ih v hv
  | map ascending parts ih => exact native_fields ih
  | @entity typeName attributes ascending parts ih =>
    refine .map fun q hq => ?_
    rcases List.mem_cons.1 hq with rfl | hq
    · exact native_fields ih
    · obtain rfl := List.mem_singleton.1 hq
      exact .string typeName

theorem Native.untagged_eq {v : Value} (h : v.Native) : v.untagged = v := by
  induction h with
  | nil | bool | integer | string => rfl
  | number finite => rw [untagged, if_pos finite]
  | list parts ih => rw [untagged, untaggedItems_eq, List.map_congr_left ih, List.map_id']
  | @map fields parts ih =>
    have hparts : ∀ p ∈ fields, (p.1, p.2.untagged) = p := fun p hp => by rw [ih p hp]
    rw [untagged, untaggedFields_eq, List.map_congr_left hparts, List.map_id']

/-- A value comes back from its JSON with entities as maps and with nil for floats that are not finite. It comes back
as it was if and only if it has neither, as every integer has and every finite float, be it whole. -/
theorem read_back_untagged {v : Value} (h : v.Ordered) :
    ofJson v.toJson = v.untagged ∧ (ofJson v.toJson = v ↔ v.Native) ∧
      (∀ n : Int64, ofJson (integer n).toJson = integer n) ∧
      ∀ x : Float, x.isFinite = true → ofJson (number x).toJson = number x := by
  have htold := ofJson_toJson h
  refine ⟨htold, ⟨fun hsame => ?_, fun hnative => ?_⟩, fun n => ?_, fun x hx => ?_⟩
  · have hnative := untagged_native h
    rwa [← htold, hsame] at hnative
  · rw [htold, hnative.untagged_eq]
  · exact (ofJson_toJson (.integer n)).trans (Native.integer n).untagged_eq
  · exact (ofJson_toJson (.number x)).trans (Native.number hx).untagged_eq

/-- A user in a list comes back as a map, its infinite score as nil, and its negative zero as it was. -/
theorem user_read_back_as_map :
    let user : Entity := ⟨"User", [("balance", .number (-0.0)), ("score", .number (1.0 / 0.0))]⟩
    let v := list [integer Int64.minValue, entity user]
    v.Ordered ∧ ¬v.Native ∧
      ofJson v.toJson = list [integer Int64.minValue,
        map [("attributes", map [("balance", number (-0.0)), ("score", nil)]), ("entity_type", string "User")]] := by
  intro user v
  have huser : (entity user).Ordered := by
    refine .entity (by unfold Dict.Ascending; decide) fun p hp => ?_
    rcases List.mem_cons.1 hp with rfl | hp
    · exact .number _
    · obtain rfl := List.mem_singleton.1 hp
      exact .number _
  have hv : v.Ordered := by
    refine .list fun w hw => ?_
    rcases List.mem_cons.1 hw with rfl | hw
    · exact .integer _
    · obtain rfl := List.mem_singleton.1 hw
      exact huser
  have hforeign : ¬(list [integer Int64.minValue, entity user]).Native := by
    intro hnative
    cases hnative with
    | list parts => cases parts (entity user) (List.mem_cons_of_mem _ List.mem_cons_self)
  exact ⟨hv, hforeign, (read_back_untagged hv).1⟩

end Value

end Fixtures
