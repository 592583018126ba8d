import Fixtures.Proofs.Holdings
import Fixtures.Proofs.Visible
import Mathlib.Algebra.Order.Field.Rat
import Mathlib.Data.Rat.Floor
import Mathlib.Tactic.Linarith
/-!
# Numbers as identifiers

A number that is an identifier is kept as a 64-bit integer. A whole float stands
for an exact integer, and one past an end of the range counts as that end. So two
numbers are one identifier if and only if they are equal or lie at or past the
same end, and creates and finds cannot tell them apart then.
-/

namespace Fixtures

open Store

/-! ## The numbers that doubles are -/

namespace Decimal

/-- `m` with its sign. -/
def signed (negative : Bool) (m : Nat) : ℤ := if negative then -m else m

/-- The number that a finite double is, exactly. -/
def Binary.rational? : Binary → Option ℚ
  | .finite negative m q => some (signed negative m * 2 ^ q)
  | .nan | .infinite _ => none

variable {negative : Bool} {m : Nat} {q : Int}

theorem signed_mul_pow (negative : Bool) (m k : Nat) :
    (signed negative m * 2 ^ (k : ℤ) : ℚ) = (signed negative m * 2 ^ k : ℤ) := by
  rw [zpow_natCast]
  norm_cast

theorem signed_div_pow (negative : Bool) (m k : Nat) :
    (signed negative m * 2 ^ (-k : ℤ) : ℚ) = signed negative m / (2 ^ k : ℕ) := by
  rw [zpow_neg, zpow_natCast, div_eq_mul_inv]
  norm_cast

/-- Rounding toward negative infinity gives the floor. -/
theorem floorScaled_eq (negative : Bool) (m : Nat) (q : Int) :
    floorScaled negative m q = ⌊(signed negative m * 2 ^ q : ℚ)⌋ := by
  unfold floorScaled
  change (if 0 ≤ q then signed negative m * Int.pow 2 q.toNat
    else (signed negative m).fdiv (Int.pow 2 (-q).toNat)) = _
  rcases Int.eq_nat_or_neg q with ⟨k, rfl | rfl⟩
  · rw [signed_mul_pow, Int.floor_intCast, if_pos (Int.natCast_nonneg k)]
    rfl
  · rw [signed_div_pow, Rat.floor_intCast_div_natCast]
    by_cases hk : k = 0
    · subst hk
      exact (Int.mul_one _).trans (Int.ediv_one _).symm
    · have hpow : Int.pow 2 k = (2 ^ k : ℕ) := by
        push_cast
        rfl
      rw [if_neg (by omega), neg_neg, Int.toNat_natCast, hpow, Int.fdiv_eq_ediv_of_nonneg _ (Int.natCast_nonneg _)]

theorem isWhole_iff (negative : Bool) : isWhole m q = true ↔ ∃ n : ℤ, (signed negative m * 2 ^ q : ℚ) = n := by
  rcases Int.eq_nat_or_neg q with ⟨k, rfl | rfl⟩
  · rw [signed_mul_pow]
    exact iff_of_true (by simp [isWhole]) ⟨_, rfl⟩
  · have hpow : ((2 ^ k : ℕ) : ℚ) ≠ 0 := by positivity
    have hdvd : isWhole m (-k) = true ↔ ((2 ^ k : ℕ) : ℤ) ∣ signed negative m := by
      have hm : isWhole m (-k) = true ↔ 2 ^ k ∣ m := by
        rw [isWhole, Bool.or_eq_true, decide_eq_true_eq, decide_eq_true_eq, Nat.dvd_iff_mod_eq_zero, neg_neg]
        refine or_iff_right_of_imp fun hk => ?_
        obtain rfl : k = 0 := by omega
        exact Nat.mod_one m
      rw [hm, ← Int.natCast_dvd_natCast]
      cases negative
      · rfl
      · exact Int.dvd_neg.symm
    rw [hdvd, signed_div_pow]
    simp only [div_eq_iff hpow]
    refine exists_congr fun n => ?_
    rw [mul_comm]
    norm_cast

/-- A double is whole if it is an integer, and is that integer then. -/
theorem whole?_eq_some {x : Float} {n : ℤ} : whole? x = some n ↔ (Binary.ofFloat x).rational? = some (n : ℚ) := by
  unfold whole?
  cases Binary.ofFloat x with
  | nan => exact iff_of_false nofun nofun
  | infinite negative => exact iff_of_false nofun nofun
  | finite negative m q =>
    simp only [Binary.rational?, Option.some.injEq]
    by_cases hw : isWhole m q = true
    · obtain ⟨z, hz⟩ := (isWhole_iff negative).1 hw
      rw [if_pos hw, floorScaled_eq, hz, Int.floor_intCast, Option.some.injEq, Int.cast_inj]
    · rw [if_neg hw]
      exact iff_of_false nofun fun hz => hw ((isWhole_iff negative).2 ⟨n, hz⟩)

/-! ## The ends of the range -/

theorem toInt_clamp (n : Int) : (clamp n).toInt = max (-2 ^ 63) (min n (2 ^ 63 - 1)) := by
  unfold clamp
  rw [Int64.toInt_minValue, Int64.toInt_maxValue]
  split
  · rw [Int64.toInt_minValue]
    omega
  · split
    · rw [Int64.toInt_maxValue]
      omega
    · rw [Int64.toInt_ofInt_of_le (by omega) (by omega)]
      omega

theorem clamp_toInt (n : Int64) : clamp n.toInt = n := by
  have hlow := n.le_toInt
  have hhigh := n.toInt_lt
  rw [← Int64.toInt_inj, toInt_clamp]
  omega

/-- Clamping takes two integers for one if they are equal, or at or past the same end. -/
theorem clamp_eq_iff {a b : Int} :
    clamp a = clamp b ↔ a = b ∨ 2 ^ 63 - 1 ≤ a ∧ 2 ^ 63 - 1 ≤ b ∨ a ≤ -2 ^ 63 ∧ b ≤ -2 ^ 63 := by
  rw [← Int64.toInt_inj, toInt_clamp, toInt_clamp]
  omega

end Decimal

namespace Value

/-- The number that a value is. -/
def rational? : Value → Option ℚ
  | integer n => some n.toInt
  | number x => (Decimal.Binary.ofFloat x).rational?
  | nil | bool _ | string _ | list _ | map _ | entity _ => none

/-- The values are one text or one number. -/
def Coincide (v w : Value) : Prop :=
  (∃ s, v = .string s ∧ w = .string s) ∨ ∃ x, v.rational? = some x ∧ w.rational? = some x

/-- The values are numbers at or past the same end of the 64-bit range. -/
def PastOneEnd (v w : Value) : Prop :=
  ∃ x y, v.rational? = some x ∧ w.rational? = some y ∧
    (2 ^ 63 - 1 ≤ x ∧ 2 ^ 63 - 1 ≤ y ∨ x ≤ -2 ^ 63 ∧ y ≤ -2 ^ 63)

variable {v w : Value} {x y : ℚ}

theorem coincide_string_iff {s : String} : (string s).Coincide w ↔ w = .string s := by
  constructor
  · rintro (⟨s', hs, rfl⟩ | ⟨x, hx, -⟩)
    · exact hs.symm
    · cases hx
  · rintro rfl
    exact .inl ⟨s, rfl, rfl⟩

theorem coincide_numbers_iff (hv : v.rational? = some x) (hw : w.rational? = some y) : v.Coincide w ↔ x = y := by
  constructor
  · rintro (⟨s, rfl, -⟩ | ⟨z, hz, hz'⟩)
    · cases hv
    · exact (Option.some.inj (hv.symm.trans hz)).trans (Option.some.inj (hz'.symm.trans hw))
  · rintro rfl
    exact .inr ⟨x, hv, hw⟩

theorem pastOneEnd_numbers_iff (hv : v.rational? = some x) (hw : w.rational? = some y) :
    v.PastOneEnd w ↔ 2 ^ 63 - 1 ≤ x ∧ 2 ^ 63 - 1 ≤ y ∨ x ≤ -2 ^ 63 ∧ y ≤ -2 ^ 63 := by
  constructor
  · rintro ⟨x', y', hx, hy, h⟩
    rwa [Option.some.inj (hv.symm.trans hx), Option.some.inj (hw.symm.trans hy)]
  · exact fun h => ⟨x, y, hv, hw, h⟩

/-- Values that are whole numbers have an integer, and it is the nearest in range. -/
theorem asInteger?_eq_some {i : Int64} :
    v.asInteger? = some i ↔ ∃ n : ℤ, v.rational? = some (n : ℚ) ∧ i = Decimal.clamp n := by
  cases v with
  | integer w =>
    simp only [asInteger?, rational?, Option.some.injEq, Int.cast_inj]
    constructor
    · rintro rfl
      exact ⟨_, rfl, (Decimal.clamp_toInt w).symm⟩
    · rintro ⟨_, rfl, rfl⟩
      exact (Decimal.clamp_toInt w).symm
  | number x =>
    simp only [asInteger?, rational?, Option.map_eq_some_iff, Decimal.whole?_eq_some]
    exact exists_congr fun n => and_congr_right fun _ => eq_comm
  | nil | bool _ | string _ | list _ | map _ | entity _ => exact iff_of_false nofun nofun

/-- A number as an integer is the nearest one in range, and the number itself exactly if that is in range. -/
theorem asInteger?_clamped {i : Int64} (h : v.asInteger? = some i) : ∃ x, v.rational? = some x ∧
    (i.toInt : ℚ) = max (-2 ^ 63) (min x (2 ^ 63 - 1)) ∧ (i.toInt = x ↔ -2 ^ 63 ≤ x ∧ x ≤ 2 ^ 63 - 1) := by
  obtain ⟨n, hn, rfl⟩ := asInteger?_eq_some.1 h
  have hlow : (-2 ^ 63 : ℚ) = (-2 ^ 63 : ℤ) := by norm_num
  have hhigh : (2 ^ 63 - 1 : ℚ) = (2 ^ 63 - 1 : ℤ) := by norm_num
  rw [Decimal.toInt_clamp, hlow, hhigh]
  refine ⟨n, hn, by push_cast; rfl, ?_⟩
  rw [Int.cast_inj, Int.cast_le, Int.cast_le]
  omega

end Value

/-! ## Identifiers -/

namespace EntityId

variable {v w : Value} {a b : EntityId}

/-- Texts and whole numbers are identifiers. -/
theorem ofValue_eq_ok : ofValue v = .ok a ↔
    (∃ s, v = .string s ∧ a = .text s) ∨ ∃ n : ℤ, v.rational? = some (n : ℚ) ∧ a = .int (Decimal.clamp n) := by
  unfold ofValue ofValue?
  cases hi : v.asInteger? with
  | some i =>
    obtain ⟨n, hn, rfl⟩ := Value.asInteger?_eq_some.1 hi
    simp only [Except.ok.injEq]
    constructor
    · rintro rfl
      exact .inr ⟨n, hn, rfl⟩
    · rintro (⟨s, rfl, -⟩ | ⟨n', hn', rfl⟩)
      · cases hn
      · rw [Int.cast_inj.1 (Option.some.inj (hn.symm.trans hn'))]
  | none =>
    have hnone : ¬∃ n : ℤ, v.rational? = some (n : ℚ) ∧ a = .int (Decimal.clamp n) := by
      rintro ⟨n, hn, -⟩
      cases hi.symm.trans (Value.asInteger?_eq_some.2 ⟨n, hn, rfl⟩)
    rw [or_iff_left hnone]
    cases v with
    | string s => simp [Value.asString?, eq_comm]
    | nil | bool _ | integer _ | number _ | list _ | map _ | entity _ => simp [Value.asString?]

theorem ofValue_isOk_iff : (∃ a, ofValue v = .ok a) ↔ (∃ s, v = .string s) ∨ ∃ n : ℤ, v.rational? = some (n : ℚ) := by
  simp only [ofValue_eq_ok]
  constructor
  · rintro ⟨_, ⟨s, hs, -⟩ | ⟨n, hn, -⟩⟩
    · exact .inl ⟨s, hs⟩
    · exact .inr ⟨n, hn⟩
  · rintro (⟨s, hs⟩ | ⟨n, hn⟩)
    · exact ⟨_, .inl ⟨s, hs, rfl⟩⟩
    · exact ⟨_, .inr ⟨n, hn, rfl⟩⟩

/-- Two values are one identifier if they coincide, or are numbers at or past the same end. -/
theorem ofValue_eq_iff (hv : ofValue v = .ok a) (hw : ofValue w = .ok b) :
    a = b ↔ v.Coincide w ∨ v.PastOneEnd w := by
  rcases ofValue_eq_ok.1 hv with ⟨s, rfl, rfl⟩ | ⟨m, hm, rfl⟩
  · have hpast : ¬(Value.string s).PastOneEnd w := fun ⟨_, _, hs, _⟩ => nomatch hs
    rw [or_iff_left hpast, Value.coincide_string_iff]
    rcases ofValue_eq_ok.1 hw with ⟨s', rfl, rfl⟩ | ⟨n, hn, rfl⟩
    · simp [eq_comm]
    · exact iff_of_false nofun fun h => nomatch h ▸ hn
  · rcases ofValue_eq_ok.1 hw with ⟨s', rfl, rfl⟩ | ⟨n, hn, rfl⟩
    · refine iff_of_false nofun ?_
      rintro ((⟨_, rfl, -⟩ | ⟨_, -, hs⟩) | ⟨_, _, -, hs, -⟩)
      · cases hm
      · cases hs
      · cases hs
    · rw [Value.coincide_numbers_iff hm hn, Value.pastOneEnd_numbers_iff hm hn, int.injEq, Decimal.clamp_eq_iff]
      norm_cast

end EntityId

/-! ## Creates and finds -/

namespace Store

/-- An entity of the type is in sight whose identifier cannot be told from this one. -/
def Taken (s : Store) (t : EntityType) (v : Value) (e : Entity) : Prop :=
  (∃ id, s.visible.get t.name id = some e) ∧ ∃ w, e.get? t.idName = some w ∧ (w.Coincide v ∨ w.PastOneEnd v)

end Store

namespace Reachable

variable {scopes : List Scope} {s : Store} {name : String} {t : EntityType} {v : Value} {e : Entity} {id : EntityId}

/-- What is in sight under an identifier carries it. -/
theorem carried (h : Reachable scopes s) (ht : s.access name = .ok t) (he : s.visible.get t.name id = some e) :
    ∃ w, e.get? t.idName = some w ∧ EntityId.ofValue w = .ok id := by
  obtain ⟨hg, hn⟩ := access_named h.sound ht
  rw [← h.sound.lookup_eq] at he
  obtain ⟨-, t', w, ht', hw, -, hid⟩ := h.belongs.lookup he
  rw [hn, hg] at ht'
  obtain rfl : t = t' := Option.some.inj ht'
  exact ⟨w, hw, hid⟩

theorem taken_iff (h : Reachable scopes s) (ht : s.access name = .ok t) (hv : EntityId.ofValue v = .ok id) :
    s.Taken t v e ↔ s.visible.get t.name id = some e := by
  constructor
  · rintro ⟨⟨id', he⟩, w, hw, hsame⟩
    obtain ⟨w', hw', hid'⟩ := h.carried ht he
    obtain rfl : w = w' := Option.some.inj (hw.symm.trans hw')
    rwa [← (EntityId.ofValue_eq_iff hid' hv).2 hsame]
  · intro he
    obtain ⟨w, hw, hid⟩ := h.carried ht he
    exact ⟨⟨id, he⟩, w, hw, (EntityId.ofValue_eq_iff hid hv).1 rfl⟩

/-- A create is refused as a duplicate exactly if its identifier is taken. -/
theorem refused_iff (h : Reachable scopes s) (ht : s.access name = .ok t) (hv : EntityId.ofValue v = .ok id)
    (hn : e.typeName = t.name) (he : e.get? t.idName = some v) :
    Fails (s.perform name (.create e)).1 .persistence ↔ ∃ old, s.Taken t v old := by
  have hid : idOf t e = .ok id := by
    have hnil : v.isNil = false := by
      cases v with
      | nil => cases hv
      | _ => rfl
    rw [idOf, idValue?, he, Option.filter_some, hnil]
    exact hv
  have hanswers := (h.sound.answers_create ht e).2.1 id hn hid
  simp only [h.taken_iff ht hv]
  cases hfree : s.visible.get t.name id with
  | some old =>
    rw [hfree] at hanswers
    exact iff_of_true hanswers ⟨old, rfl⟩
  | none =>
    rw [hfree] at hanswers
    constructor
    · rintro ⟨f, hf, -⟩
      cases hanswers.1.symm.trans hf
    · rintro ⟨old, ho⟩
      cases ho

/-- An entity is found exactly if it has taken the identifier. -/
theorem found_iff (h : Reachable scopes s) (ht : s.access name = .ok t) (hv : EntityId.ofValue v = .ok id) :
    (s.perform name (.find v)).1 = .ok (some e) ↔ s.Taken t v e := by
  rw [h.taken_iff ht hv, (h.sound.answers_find ht v).2, hv]
  exact ⟨Except.ok.inj, congrArg _⟩

end Reachable

/-- Texts and whole numbers are identifiers. Two of them are one identifier if and only if they are one text, one
number, or numbers at or past the same end of the 64-bit range: a number is kept exactly within the range, and as the
nearest end outside. So a create is refused as a duplicate, and a find succeeds, exactly if an entity is in sight whose
identifier is the same but for that. -/
theorem numbers_identify_within_range (v w : Value) :
    ((∃ a, EntityId.ofValue v = .ok a) ↔ (∃ s, v = .string s) ∨ ∃ n : ℤ, v.rational? = some (n : ℚ)) ∧
    (∀ a b, EntityId.ofValue v = .ok a → EntityId.ofValue w = .ok b → (a = b ↔ v.Coincide w ∨ v.PastOneEnd w)) ∧
    (∀ i : Int64, v.asInteger? = some i → ∃ x, v.rational? = some x ∧
      (i.toInt : ℚ) = max (-2 ^ 63) (min x (2 ^ 63 - 1)) ∧ (i.toInt = x ↔ -2 ^ 63 ≤ x ∧ x ≤ 2 ^ 63 - 1)) ∧
    ∀ {scopes s name t}, Reachable scopes s → s.access name = .ok t → (∃ a, EntityId.ofValue v = .ok a) →
      (∀ e, e.typeName = t.name → e.get? t.idName = some v →
        (Fails (s.perform name (.create e)).1 .persistence ↔ ∃ old, s.Taken t v old)) ∧
      ∀ e, (s.perform name (.find v)).1 = .ok (some e) ↔ s.Taken t v e := by
  refine ⟨EntityId.ofValue_isOk_iff, fun a b => EntityId.ofValue_eq_iff, fun i => Value.asInteger?_clamped, ?_⟩
  intro scopes s name t h ht ⟨a, ha⟩
  exact ⟨fun e => h.refused_iff ht ha, fun e => h.found_iff ht ha⟩

/-- A user with the identifier 3 is found by the float 3, which is taken then, and not by the next number. -/
theorem whole_float_finds_integer :
    let user := EntityType.new "User"
    let ann : Entity := ⟨"User", [("id", .integer 3)]⟩
    let s := (Store.perform { types := Catalog.ofTypes [user] } "User" (.create ann)).2
    (s.perform "User" (.find (.number 3))).1 = .ok (some ann) ∧
      Fails (s.perform "User" (.create ⟨"User", [("id", .number 3)]⟩)).1 .persistence ∧
      (s.perform "User" (.find (.integer 4))).1 ≠ .ok (some ann) := by
  intro user ann s
  have h : Reachable [] s := (Reachable.start [user]).perform "User" (.create ann)
  have ht : s.access "User" = .ok user := by
    unfold s ann user
    rfl
  have hthree : (Value.number 3).rational? = some (3 : ℚ) := by
    have hbits : Decimal.Binary.ofFloat 3 = .finite false 6755399441055744 (-51) := by decide
    rw [Value.rational?, hbits]
    norm_num [Decimal.Binary.rational?, Decimal.signed]
  have hid : (Value.integer 3).rational? = some (3 : ℚ) := rfl
  have hcarried : ann.get? user.idName = some (.integer 3) := by
    unfold ann user
    rfl
  have hseen : s.visible.get "User" (.int 3) = some ann := by
    unfold s ann user
    rfl
  have htaken : s.Taken user (.number 3) ann := ⟨⟨_, hseen⟩, _, hcarried, .inl (.inr ⟨3, hid, hthree⟩)⟩
  obtain ⟨husable, -, -, hstore⟩ := numbers_identify_within_range (.number 3) (.integer 3)
  obtain ⟨hcreate, hfind⟩ := hstore h ht (husable.2 (.inr ⟨3, hthree⟩))
  obtain ⟨-, -, -, hnext⟩ := numbers_identify_within_range (.integer 4) (.integer 3)
  obtain ⟨-, hother⟩ := hnext h ht ⟨.int 4, rfl⟩
  refine ⟨(hfind ann).2 htaken, (hcreate _ rfl (by unfold user; rfl)).2 ⟨ann, htaken⟩, fun hfound => ?_⟩
  obtain ⟨-, w, hw, hsame⟩ := (hother ann).1 hfound
  obtain rfl : Value.integer 3 = w := Option.some.inj (hcarried.symm.trans hw)
  have hfour : (Value.integer 4).rational? = some (4 : ℚ) := rfl
  rw [Value.coincide_numbers_iff hid hfour, Value.pastOneEnd_numbers_iff hid hfour] at hsame
  norm_num at hsame

/-- The float 2⁶³ is past the range, and counts as the greatest integer in it: it finds the user with that identifier,
and cannot be the identifier of another. -/
theorem past_the_range_clashes :
    let user := EntityType.new "User"
    let ann : Entity := ⟨"User", [("id", .integer Int64.maxValue)]⟩
    let big : Value := .number (.ofBits 0x43E0000000000000)
    let s := (Store.perform { types := Catalog.ofTypes [user] } "User" (.create ann)).2
    big.rational? = some (2 ^ 63) ∧ (Value.integer Int64.maxValue).rational? = some (2 ^ 63 - 1) ∧
      big.asInteger? = some Int64.maxValue ∧
      EntityId.ofValue big = EntityId.ofValue (.integer Int64.maxValue) ∧
      (s.perform "User" (.find big)).1 = .ok (some ann) ∧
      Fails (s.perform "User" (.create ⟨"User", [("id", big)]⟩)).1 .persistence := by
  intro user ann big s
  have hbits : Decimal.Binary.ofFloat (.ofBits 0x43E0000000000000) = .finite false 4503599627370496 11 := by decide
  refine ⟨?_, ?_, ?_, ?_, ?_, ?_⟩
  · rw [Value.rational?, hbits]
    norm_num [Decimal.Binary.rational?, Decimal.signed]
  · norm_num [Value.rational?, Int64.toInt_maxValue]
  · unfold big
    decide
  · unfold big
    rfl
  · unfold s big ann user
    rfl
  · unfold s big ann user
    exact ⟨_, rfl, rfl⟩

end Fixtures
