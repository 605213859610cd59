import Logbook.Proofs.Registry
import Logbook.Proofs.Render.Texts
set_option autoImplicit false

/-!
# Values of enumerations in a record

An entry holds the bits of a value and which enumeration it is of, and its name is looked up when the
record is rendered. `EnumType.Asks` says which text a format string asks for: the number, the integer
with its bits, or the last name that these bits are given. Records and registrations may come in any
order; at every place in the record the value is shown as the one text that is asked for, and no
later registration changes it unless the enumeration was not known before.
-/
namespace Logbook

open Number Record Render Text

/-! ## Texts -/

namespace EnumType

def AsksForDecimal (format : Option String) : Prop := format = some "D" ∨ format = some "d"

def AsksForInteger (format : Option String) : Prop :=
  ∃ f, format = some f ∧ (f.toList.head? = some 'X' ∨ f.toList.head? = some 'x')

/-- The text of a value that a format string asks for, where `known` is whether the enumeration is
registered. -/
inductive Asks (type : EnumType) (known : Prop) (bits : BitVec 64) :
    Option String → List Char → Prop
  | decimal {format : Option String} {text : List Char} (hformat : AsksForDecimal format)
      (htext : IsDecimal 0 (type.discriminant bits) text) : Asks type known bits format text
  | integer {format : String} {text : List Char} (hformat : AsksForInteger (some format))
      (htext : Prescribes 64 (type.discriminant bits) format text) :
      Asks type known bits (some format) text
  | named {format : Option String} {name : String} (hdecimal : ¬AsksForDecimal format)
      (hinteger : ¬AsksForInteger format) (hknown : known)
      (hname : LastNamed type.variants bits name) : Asks type known bits format name.toList
  | unnamed {format : Option String} {text : List Char} (hdecimal : ¬AsksForDecimal format)
      (hinteger : ¬AsksForInteger format)
      (hnone : ∀ name, known → ¬LastNamed type.variants bits name)
      (htext : IsDecimal 0 (type.discriminant bits) text) : Asks type known bits format text

variable {type : EnumType} {known : Prop} {bits : BitVec 64} {ctx : Context}
  {format : Option String} {text : List Char}

theorem AsksForDecimal.not_asksForInteger (h : AsksForDecimal format) : ¬AsksForInteger format := by
  rintro ⟨f, rfl, hhead⟩
  rcases h with h | h <;> cases h <;> revert hhead <;> decide

theorem AsksForInteger.not_asksForFloating {f : String} (h : AsksForInteger (some f)) :
    ¬AsksForFloating f := by
  rintro ⟨letter, digits, hspells, hletter⟩
  obtain ⟨_, heq, hhead⟩ := h
  cases heq
  rw [hspells.toList_eq, List.head?_cons, Option.some_inj, Option.some_inj] at hhead
  rcases hhead with rfl | rfl <;> revert hletter <;> decide

theorem length_discriminant_le (type : EnumType) (bits : BitVec 64) :
    (Number.integer (type.discriminant bits)).length ≤ integerScratchSize :=
  length_integer_le (type.discriminant_bounds bits).1 (type.discriminant_bounds bits).2

theorem enumText_of_asksForDecimal (h : AsksForDecimal format) :
    enumText ctx type.signed type.token bits format = Number.integer (type.discriminant bits) := by
  rcases h with rfl | rfl <;> rfl

theorem enumText_of_not_asksForDecimal {f : String} (h : ¬AsksForDecimal (some f)) :
    enumText ctx type.signed type.token bits (some f) =
      if f.toList.head? = some 'X' ∨ f.toList.head? = some 'x' then
        integerFormat 64 (type.discriminant bits) (some f)
      else enumText ctx type.signed type.token bits none := by
  have hupper : f ≠ "D" := fun heq => h (.inl (congrArg some heq))
  have hlower : f ≠ "d" := fun heq => h (.inr (congrArg some heq))
  simp only [enumText, discriminant]
  generalize (if type.signed then bits.toInt else (bits.toNat : Int)) = number
  split
  case h_1 rest hX => rw [hX, if_pos (.inl rfl)]
  case h_2 rest hx => rw [hx, if_pos (.inr rfl)]
  case h_3 hX hx =>
    rw [if_neg]
    rintro (hhead | hhead)
    · obtain ⟨rest, htext⟩ := List.head?_eq_some_iff.1 hhead
      exact hX rest htext
    · obtain ⟨rest, htext⟩ := List.head?_eq_some_iff.1 hhead
      exact hx rest htext

theorem enumText_of_asksForInteger {f : String} (h : AsksForInteger (some f)) :
    enumText ctx type.signed type.token bits (some f) =
      integerFormat 64 (type.discriminant bits) (some f) := by
  have hdecimal : ¬AsksForDecimal (some f) := fun hd => hd.not_asksForInteger h
  obtain ⟨_, heq, hhead⟩ := h
  cases heq
  rw [enumText_of_not_asksForDecimal hdecimal, if_pos hhead]

theorem enumText_of_neither (hdecimal : ¬AsksForDecimal format)
    (hinteger : ¬AsksForInteger format) :
    enumText ctx type.signed type.token bits format =
      match ctx.registry.enumName? type.token bits with
      | some name => name.toList
      | none => Number.integer (type.discriminant bits) := by
  cases format with
  | none => rfl
  | some f =>
    rw [enumText_of_not_asksForDecimal hdecimal, if_neg fun hhead => hinteger ⟨f, rfl, hhead⟩]
    rfl

theorem enumName?_eq_some_iff (h : ctx.registry.Knows known type) {name : String} :
    ctx.registry.enumName? type.token bits = some name ↔
      known ∧ LastNamed type.variants bits name := by
  by_cases hknown : known
  · rw [Registry.enumName?, h.1 hknown, Option.bind_some, name?_eq_some_iff]
    simp only [hknown, true_and]
  · rw [Registry.enumName?, h.2 hknown, Option.bind_none]
    simp only [hknown, reduceCtorEq, false_and]

theorem exists_knows (type : EnumType) (known : Prop) : ∃ r : Registry, r.Knows known type := by
  have hempty := Registry.knows_empty type
  by_cases h : known
  · have hseparates : Registry.Separates [.enum type] type := by
      intro other hother _
      cases List.mem_singleton.1 hother
      rfl
    have hknows := hempty.register hseparates
    exact ⟨_, fun _ => hknows.1 (.inr rfl), fun hnot => absurd h hnot⟩
  · exact ⟨_, fun hknown => absurd hknown h, fun _ => hempty.2 id⟩

/-- The text that is asked for is the one that is written. -/
theorem asks_iff (h : ctx.registry.Knows known type) :
    type.Asks known bits format text ↔
      text = enumText ctx type.signed type.token bits format := by
  have hfits := length_discriminant_le type bits
  constructor
  · intro hasks
    cases hasks with
    | decimal hformat htext =>
      rw [enumText_of_asksForDecimal hformat, isDecimal_zero_iff.1 htext]
    | integer hformat htext =>
      rw [enumText_of_asksForInteger hformat, htext.eq_integerFormat hfits]
    | named hdecimal hinteger hknown hname =>
      rw [enumText_of_neither hdecimal hinteger, (enumName?_eq_some_iff h).2 ⟨hknown, hname⟩]
    | unnamed hdecimal hinteger hnone htext =>
      have hname : ctx.registry.enumName? type.token bits = none := by
        rw [Option.eq_none_iff_forall_ne_some]
        intro name hname
        obtain ⟨hknown, hlast⟩ := (enumName?_eq_some_iff h).1 hname
        exact hnone name hknown hlast
      rw [enumText_of_neither hdecimal hinteger, hname, isDecimal_zero_iff.1 htext]
  · rintro rfl
    by_cases hdecimal : AsksForDecimal format
    · rw [enumText_of_asksForDecimal hdecimal]
      exact .decimal hdecimal (isDecimal_zero_iff.2 rfl)
    by_cases hinteger : AsksForInteger format
    · obtain ⟨f, rfl, -⟩ := id hinteger
      rw [enumText_of_asksForInteger hinteger]
      exact .integer hinteger (prescribes_integerFormat 64 hfits hinteger.not_asksForFloating)
    rw [enumText_of_neither hdecimal hinteger]
    cases hname : ctx.registry.enumName? type.token bits with
    | some name =>
      obtain ⟨hknown, hlast⟩ := (enumName?_eq_some_iff h).1 hname
      exact .named hdecimal hinteger hknown hlast
    | none =>
      refine .unnamed hdecimal hinteger (fun name hknown hlast => ?_) (isDecimal_zero_iff.2 rfl)
      rw [(enumName?_eq_some_iff h).2 ⟨hknown, hlast⟩] at hname
      cases hname

theorem present_integer (hformat : AsksForInteger format) :
    present ctx format (if type.signed then .integer .int64 bits else .integer .uint64 bits) =
      .text (String.ofList (enumText ctx type.signed type.token bits format)) := by
  obtain ⟨f, rfl, -⟩ := id hformat
  rw [enumText_of_asksForInteger hformat, discriminant]
  cases type.signed <;> rfl

end EnumType

/-! ## Records and registrations in any order -/

structure Session where
  record : Record
  registry : Registry

namespace Session

inductive Act where
  | perform (op : Operation)
  | register (registration : Registration)

def Act.operation? : Act → Option Operation
  | .perform op => some op
  | .register _ => none

def Act.registration? : Act → Option Registration
  | .perform _ => none
  | .register registration => some registration

def act (s : Session) : Act → Session
  | .perform op => { s with record := s.record.perform op }
  | .register registration => { s with registry := s.registry.register registration }

def run (s : Session) (acts : List Act) : Session := acts.foldl act s

/-- What is done to the record leaves the registry as it is, and the other way round. -/
theorem run_eq (s : Session) (acts : List Act) :
    s.run acts = ⟨s.record.run (acts.filterMap Act.operation?),
      s.registry.registerAll (acts.filterMap Act.registration?)⟩ := by
  induction acts generalizing s with
  | nil => rfl
  | cons first rest ih =>
    rw [run, List.foldl_cons, ← run, ih]
    cases first with
    | perform op => rfl
    | register registration => rfl

end Session

namespace Record

open Addition

/-- Records and registrations may come in any order: a value of an enumeration is shown at every
place as the one text that is asked for. Registering the enumeration again changes nothing, nor does
registering formatters and other enumerations, and appending leaves the registry as it is. -/
theorem run_enums (segment : Segment) (capacity serial : Nat) (acts : List Session.Act)
    (hsize : segment.size < 0x1_0000_0000) :
    let session := (Session.mk (create segment capacity serial) .empty).run acts
    let r := session.record
    let operations := acts.filterMap Session.Act.operation?
    let registrations := acts.filterMap Session.Act.registration?
    session.registry = Registry.empty.registerAll registrations ∧
    (∃ kept part marked, r.Keeps (Operation.lastAdded operations) kept part marked ∧
      ∀ (type : EnumType) (bits : BitVec 64), ∃ text : Option String → List Char,
        (∀ format other,
          type.Asks (.enum type ∈ registrations) bits format other ↔ other = text format) ∧
        ∀ more, Registry.Separates (registrations ++ more) type →
          (.enum type ∈ more → .enum type ∈ registrations) →
          ∀ settings : Settings,
            let registry := session.registry.registerAll more
            r.ShowsText kept part registry settings (.enum type bits) text ∧
            ∀ format, EnumType.AsksForInteger format →
              present (r.context registry settings) format
                (if type.signed then .integer .int64 bits else .integer .uint64 bits) =
                  .text (String.ofList (text format))) ∧
    ∀ (token : TypeToken) (kind : IntegerKind) (variants : List (BitVec kind.width × String))
      (bits : BitVec kind.width), kind.size ≤ 8 →
        let type := EnumType.declare token kind variants
        type.discriminant (kind.widen bits) = kind.value bits ∧
        ∀ name, LastNamed type.variants (kind.widen bits) name ↔ LastNamed variants bits name := by
  intro session r operations registrations
  have hrun : session = ⟨(create segment capacity serial).run operations,
      Registry.empty.registerAll registrations⟩ := Session.run_eq _ acts
  have hrecord : r = (create segment capacity serial).run operations :=
    congrArg Session.record hrun
  have hregistry : session.registry = Registry.empty.registerAll registrations :=
    congrArg Session.registry hrun
  refine ⟨hregistry, ?_, fun token kind variants bits hkind =>
    ⟨IntegerKind.discriminant_widen hkind rfl bits, fun name =>
      lastNamed_map (IntegerKind.widen_injective hkind)⟩⟩
  obtain ⟨kept, part, marked, h⟩ := keeps_run segment capacity serial operations
  have hlt := size_run_lt hsize capacity serial operations
  rw [← hrecord] at h hlt
  refine ⟨kept, part, marked, h, fun type bits => ?_⟩
  obtain ⟨known, hknown⟩ := EnumType.exists_knows type (.enum type ∈ registrations)
  let text := enumText ⟨known, #[], ""⟩ type.signed type.token bits
  refine ⟨text, fun format other => EnumType.asks_iff hknown, ?_⟩
  intro more hseparates hmore settings registry
  have hknows : (r.context registry settings).registry.Knows (.enum type ∈ registrations) type := by
    have hall := (Registry.knows_empty type).registerAll hseparates
    rw [Registry.registerAll_append, ← hregistry, false_or, List.mem_append,
      or_iff_left_of_imp hmore] at hall
    exact hall
  -- both registries know the enumeration or neither does, so they show the same
  have htext : ∀ format, enumText (r.context registry settings) type.signed type.token bits format =
      text format := fun format =>
    (EnumType.asks_iff hknown).1 ((EnumType.asks_iff hknows).2 rfl)
  refine ⟨h.showsText hlt rfl ?_, fun format hformat => ?_⟩
  · exact .of_read rfl fun format index =>
      congrArg (fun cs => Presentation.text (String.ofList cs)) (htext format)
  · rw [← htext]
    exact EnumType.present_integer hformat

/-- Two names for the least of eight bits, registered after a record took it and before it took it
again. -/
theorem run_enums_renamed :
    let least : BitVec IntegerKind.int8.width := 0x80
    let type := EnumType.declare 7 .int8 [(least, "Low"), (0x7F, "High"), (least, "Lowest")]
    let level : Value := .enum type (IntegerKind.int8.widen least)
    let acts : List Session.Act := [.perform (.reset none .info .epoch "main"),
      .perform (.add (.value level none)), .register (.enum type),
      .perform (.add (.value level (some "D"))), .register (.formatter 7 fun _ _ => .finish true)]
    let session := (Session.mk (create (Segment.zeroed 64) 8 0) .empty).run acts
    let units : Array UInt8 :=
      (session.record.render session.registry {} false {} (Output.unlimited utf8)).out.units
    type.discriminant (IntegerKind.int8.widen least) = -128 ∧
      units.toList = Utf8.bytes "Lowest-128" := by
  intro least type level acts session units
  obtain ⟨-, ⟨kept, part, marked, h, henums⟩, hdeclared⟩ :=
    run_enums (Segment.zeroed 64) 8 0 acts (by decide)
  obtain ⟨hvalue, hnames⟩ := hdeclared 7 .int8 [(least, "Low"), (0x7F, "High"), (least, "Lowest")]
    least (by decide)
  obtain ⟨text, hunique, hshown⟩ := henums type (IntegerKind.int8.widen least)
  have hname : "Lowest".toList = text none := by
    refine (hunique none _).1 (.named nofun nofun ?_ ((hnames "Lowest").2 ?_))
    · exact List.mem_cons_self
    · exact ⟨[(least, "Low"), (0x7F, "High")], [], rfl, nofun⟩
  have hseparates : Registry.Separates
      (acts.filterMap Session.Act.registration? ++ []) type := by
    intro other hother _
    simpa [acts, Session.Act.registration?, eq_comm] using hother
  obtain ⟨hshows, -⟩ := hshown [] hseparates nofun {}
  have hcompletes : session.registry.All Script.Completes :=
    Registry.All.registerFormatter nofun 7 fun _ _ => rfl
  have htruncated : session.record.truncated = false := by decide
  obtain ⟨rfl, rfl⟩ := h.all_kept htruncated
  have hout := hshows.shown hcompletes [] [.value level (some "D")] none rfl
    (fun _ ha => absurd ha List.not_mem_nil) utf8 false {}
  simp only [Bool.false_eq_true, ↓reduceIte, ← hname] at hout
  refine ⟨hvalue.trans (by decide), ?_⟩
  have hunits : units = ((Output.unlimited utf8).add "Lowest-128".toList).units :=
    congrArg Output.units (hout.trans (congrArg (Output.unlimited utf8).add (by decide)))
  rw [hunits]
  rfl

end Record
end Logbook
