import Logbook.Proofs.Number.Decimals
import Logbook.Proofs.Render.Texts
set_option autoImplicit false

/-!
# Decimals in a record

An entry holds the sign, the coefficient and the scale of a decimal, so it is read back as the same
decimal, and shown as its format asks for.
-/
namespace Logbook.Record

open Number Number.Decimal96 Render Text

theorem takesText_decimal (ctx : Context) (d : Decimal96) :
    TakesText ctx (.decimal d) (Arithmetic.standard.format d) :=
  .of_read rfl fun format _ => by
    rw [Value.payload, present, decimalOf_payload]
    rfl

/-- Whatever was done to a record, a decimal in it is shown by the standard arithmetic. With this one,
or any other that rounds half away from zero, writes exactly and multiplies exactly, a decimal is
rounded once to the number of places that its format asks for, on both sides of zero alike, and shown
as it is if the format asks for none. -/
theorem run_decimals (segment : Segment) (capacity serial : Nat) (ops : List Operation)
    (hsize : segment.size < 0x1_0000_0000) :
    let r := (create segment capacity serial).run ops
    (∃ kept part marked, r.Keeps (Operation.lastAdded ops) kept part marked ∧
      ∀ (d : Decimal96) (registry : Registry) (settings : Settings),
        r.ShowsText kept part registry settings (.decimal d) (Arithmetic.standard.format d)) ∧
    Arithmetic.standard.Lawful ∧
    (∀ a : Arithmetic, a.Lawful → ∀ d : Decimal96, a.Shows d) ∧
    ∀ (places : Nat) (x : ℚ), (∃! y, IsRounded places x y) ∧
      ∀ y, IsRounded places x y → IsRounded places (-x) (-y) := by
  intro r
  refine ⟨?_, Arithmetic.lawful_standard, fun a ha d => ha.shows d, fun places x =>
    ⟨existsUnique_isRounded places x, fun y hy => hy.neg⟩⟩
  obtain ⟨kept, part, marked, h⟩ := keeps_run segment capacity serial ops
  exact ⟨kept, part, marked, h, fun d registry settings =>
    h.showsText (size_run_lt hsize capacity serial ops) rfl (takesText_decimal _ d)⟩

/-- A negative number halfway between two hundredths, rounded to the one further from zero. -/
theorem run_decimals_half :
    let d : Decimal96 := ⟨true, 9995, 3, by decide, by decide⟩
    let ops : List Operation := [.reset none .info .epoch "main", .add (.value (.decimal d) (some "F2"))]
    let r := (create (Segment.zeroed 64) 8 0).run ops
    let units : Array UInt8 :=
      (r.render .empty {} false {} (Output.unlimited utf8)).out.units
    IsRounded 2 d.value (-10) ∧ readDecimal? "-10.00".toList = some (-10) ∧
      units.toList = Utf8.bytes "-10.00" := by
  intro d ops r units
  obtain ⟨⟨kept, part, marked, h, hdecimals⟩, hlawful, hshows, -⟩ :=
    run_decimals (Segment.zeroed 64) 8 0 ops (by decide)
  have hspells : Specifier.Spells "F2" 'F' ['2'] :=
    ⟨rfl, rfl, List.all_eq_true.1 rfl, by decide⟩
  have hrounded : IsRounded 2 d.value (-10) := by
    refine ⟨-1000, ?_, by norm_num⟩
    norm_num [IsNearest, Decimal96.value, Decimal96.exact, Rounded.value, sign, d, abs_lt]
  have hfits : Decimal96.Fits 2 (-10) := by
    have hfloor : ⌊|(-10 : ℚ)|⌋₊ = 10 := by norm_num
    rw [Decimal96.Fits, hfloor]
    decide
  have hread := ((hshows _ hlawful d).fixed "F2" 'F' ['2'] hspells (.inl rfl) (-10) hrounded hfits).1
  have htext : Arithmetic.standard.format d (some "F2") = "-10.00".toList := by decide
  rw [htext] at hread
  have htruncated : r.truncated = false := by decide
  obtain ⟨rfl, rfl⟩ := h.all_kept htruncated
  have hregistry : Registry.empty.All Script.Completes :=
    fun _ formatter (h : none = some formatter) => absurd h.symm (Option.some_ne_none formatter)
  have hout := (hdecimals d .empty {}).shown hregistry [] [] (some "F2") rfl
    (fun _ ha => absurd ha List.not_mem_nil) utf8 false {}
  have hreadable : (Value.decimal d).isReadable = true := rfl
  simp only [hreadable, Bool.false_eq_true, ↓reduceIte, htext] at hout
  refine ⟨hrounded, hread, ?_⟩
  have hunits : units = ((Output.unlimited utf8).add "-10.00".toList).units :=
    congrArg Output.units (hout.trans (congrArg (Output.unlimited utf8).add (by decide)))
  rw [hunits]
  rfl

end Logbook.Record
