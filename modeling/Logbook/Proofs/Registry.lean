import Logbook.Proofs.Number.Integers
import Logbook.Record.Enumeration
set_option autoImplicit false

/-!
# What a registry knows

A registry is made by registrations in any order. If no two enumerations share a token, it knows
exactly those that were registered, no matter how often, what else was registered or in between. A
name is the last that is given to its bits, and widening the bits of an integer of at most eight bytes
keeps both the number and the name.
-/
namespace Logbook

open Record

inductive Registration where
  | enum (type : EnumType)
  | formatter (token : TypeToken) (formatter : Formatter)

namespace Registry

def register (r : Registry) : Registration → Registry
  | .enum type => r.registerEnum type
  | .formatter token formatter => r.registerFormatter token formatter

def registerAll (r : Registry) (registrations : List Registration) : Registry :=
  registrations.foldl register r

theorem registerAll_append (r : Registry) (registrations more : List Registration) :
    r.registerAll (registrations ++ more) = (r.registerAll registrations).registerAll more :=
  List.foldl_append

theorem enum?_registerEnum (r : Registry) (type : EnumType) (token : TypeToken) :
    (r.registerEnum type).enum? token = if type.token = token then some type else r.enum? token := by
  rw [enum?, registerEnum, List.find?_cons]
  by_cases h : type.token = token
  · simp only [h, decide_true, ↓reduceIte]
  · simp only [h, decide_false, ↓reduceIte]
    rw [List.find?_filter, enum?]
    congr 1
    funext other
    -- an enumeration that is found has the token that is looked for, so it was not taken out
    by_cases hother : other.token = token
    · have hkept : other.token ≠ type.token := fun heq => h (heq.symm.trans hother)
      simp [hother, Ne.symm h]
    · simp [hother]

def Separates (registrations : List Registration) (type : EnumType) : Prop :=
  ∀ other, .enum other ∈ registrations → other.token = type.token → other = type

def Knows (r : Registry) (known : Prop) (type : EnumType) : Prop :=
  (known → r.enum? type.token = some type) ∧ (¬known → r.enum? type.token = none)

theorem Knows.register {r : Registry} {known : Prop} {type : EnumType} (h : r.Knows known type)
    {registration : Registration} (hseparates : Separates [registration] type) :
    (r.register registration).Knows (known ∨ registration = .enum type) type := by
  cases registration with
  | formatter token formatter =>
    simp only [reduceCtorEq, or_false]
    exact h
  | enum other =>
    rw [Knows, Registry.register, enum?_registerEnum]
    by_cases htoken : other.token = type.token
    · obtain rfl := hseparates other (List.mem_singleton.2 rfl) htoken
      simp only [or_true, not_true_eq_false, false_implies, and_true, ↓reduceIte, implies_true]
    · have hne : other ≠ type := fun heq => htoken (heq ▸ rfl)
      simp only [htoken, ↓reduceIte, Registration.enum.injEq, hne, or_false]
      exact h

theorem Knows.registerAll {r : Registry} {known : Prop} {type : EnumType} (h : r.Knows known type)
    {registrations : List Registration} (hseparates : Separates registrations type) :
    (r.registerAll registrations).Knows (known ∨ .enum type ∈ registrations) type := by
  induction registrations generalizing r known with
  | nil =>
    simp only [List.not_mem_nil, or_false]
    exact h
  | cons registration rest ih =>
    have hfirst := h.register fun other (hother : .enum other ∈ [registration]) =>
      hseparates other (List.mem_singleton.1 hother ▸ List.mem_cons_self)
    have hrest := ih hfirst fun other hother => hseparates other (List.mem_cons_of_mem _ hother)
    rw [or_assoc] at hrest
    rw [List.mem_cons, eq_comm]
    exact hrest

theorem knows_empty (type : EnumType) : Registry.empty.Knows False type :=
  ⟨False.elim, fun _ => rfl⟩

end Registry

/-! ## Names -/

def LastNamed {α : Type} (variants : List (α × String)) (bits : α) (name : String) : Prop :=
  ∃ before after, variants = before ++ (bits, name) :: after ∧ ∀ v ∈ after, v.1 ≠ bits

theorem lastNamed_map {α β : Type} {widen : α → β} (hwiden : Function.Injective widen)
    {variants : List (α × String)} {bits : α} {name : String} :
    LastNamed (variants.map fun v => (widen v.1, v.2)) (widen bits) name ↔
      LastNamed variants bits name := by
  constructor
  · rintro ⟨before, after, hsplit, hlast⟩
    obtain ⟨before, rest, rfl, -, hrest⟩ := List.map_eq_append_iff.1 hsplit
    obtain ⟨⟨other, _⟩, after, rfl, hsame, rfl⟩ := List.map_eq_cons_iff.1 hrest
    obtain ⟨hbits, rfl⟩ := Prod.mk.inj hsame
    obtain rfl := hwiden hbits
    refine ⟨before, after, rfl, fun v hv heq => ?_⟩
    exact hlast _ (List.mem_map_of_mem hv) (congrArg widen heq)
  · rintro ⟨before, after, rfl, hlast⟩
    let widened : α × String → β × String := fun v => (widen v.1, v.2)
    refine ⟨before.map widened, after.map widened, ?_, ?_⟩
    · rw [List.map_append, List.map_cons]
    · intro v hv heq
      obtain ⟨w, hw, rfl⟩ := List.mem_map.1 hv
      exact hlast w hw (hwiden heq)

namespace EnumType

variable {type : EnumType} {bits : BitVec 64}

theorem name?_eq_some_iff {name : String} :
    type.name? bits = some name ↔ LastNamed type.variants bits name := by
  rw [name?, Option.map_eq_some_iff]
  constructor
  · rintro ⟨⟨named, _⟩, hfind, rfl⟩
    obtain ⟨hbits, before, after, hsplit, hbefore⟩ := List.find?_eq_some_iff_append.1 hfind
    obtain rfl : named = bits := of_decide_eq_true hbits
    refine ⟨after.reverse, before.reverse, ?_, fun v hv => ?_⟩
    · rw [← List.reverse_reverse type.variants, hsplit, List.reverse_append, List.reverse_cons,
        List.append_assoc]
      rfl
    · simpa using hbefore v (List.mem_reverse.1 hv)
  · rintro ⟨before, after, hsplit, hafter⟩
    refine ⟨(bits, name), List.find?_eq_some_iff_append.2
      ⟨decide_eq_true rfl, after.reverse, before.reverse, ?_, fun v hv => ?_⟩, rfl⟩
    · rw [hsplit, List.reverse_append, List.reverse_cons, List.append_assoc]
      rfl
    · simpa using hafter v (List.mem_reverse.1 hv)

def discriminant (type : EnumType) (bits : BitVec 64) : Int :=
  if type.signed then bits.toInt else bits.toNat

theorem discriminant_bounds (type : EnumType) (bits : BitVec 64) :
    -(Nat.pow 2 127 : Nat) ≤ type.discriminant bits ∧ type.discriminant bits < Nat.pow 2 128 := by
  rw [discriminant]
  cases type.signed with
  | true => exact Number.value_bounds .int64 bits
  | false => exact Number.value_bounds .uint64 bits

end EnumType

/-! ## Widening -/

namespace Record.IntegerKind

variable {kind : IntegerKind}

theorem width_le (h : kind.size ≤ 8) : kind.width ≤ 64 := by
  rw [width]
  omega

theorem discriminant_widen (h : kind.size ≤ 8) {type : EnumType}
    (hsigned : type.signed = kind.isSigned) (bits : BitVec kind.width) :
    type.discriminant (kind.widen bits) = kind.value bits := by
  rw [EnumType.discriminant, widen, value, hsigned]
  cases kind.isSigned with
  | true => exact BitVec.toInt_signExtend_of_le (width_le h)
  | false =>
    simp only [Bool.false_eq_true, ↓reduceIte, BitVec.toNat_setWidth]
    have hlt := Nat.lt_of_lt_of_le bits.isLt (Nat.pow_le_pow_right (by decide) (width_le h))
    rw [Nat.mod_eq_of_lt hlt]

theorem value_injective (kind : IntegerKind) : Function.Injective kind.value := by
  intro a b h
  rw [← Number.ofInt_value kind a, h, Number.ofInt_value]

theorem widen_injective (h : kind.size ≤ 8) : Function.Injective kind.widen := by
  intro a b hwiden
  have hvalue := @discriminant_widen kind h (.declare 0 kind []) rfl
  apply kind.value_injective
  rw [← hvalue, hwiden, hvalue]

end Record.IntegerKind
end Logbook
