import Logbook.Proofs.Record.Stored
set_option autoImplicit false

/-!
# Reading a payload and stepping over it

Two descriptions of a payload's length go side by side: the reader of each tag takes the words it
needs, and stepping over the payload takes as many bytes as the tag says. They leave the same bytes,
whatever the bytes are, and end too early on the same ones.
-/
namespace Logbook.Record

theorem skipBytes_add (a b : Nat) (data : List UInt8) :
    skipBytes (a + b) data = (skipBytes a data).bind (skipBytes b) := by
  induction a generalizing data with
  | zero => rw [Nat.zero_add, skipBytes, Option.bind_some]
  | succ a ih =>
    rw [Nat.succ_add]
    cases data with
    | nil => rfl
    | cons byte data => exact ih data

theorem length_of_takeBytes {count : Nat} {data taken rest : List UInt8}
    (h : takeBytes count data = some (taken, rest)) : taken.length = count := by
  induction count generalizing data taken with
  | zero =>
    cases h
    rfl
  | succ count ih =>
    cases data with
    | nil => cases h
    | cons byte data =>
      rw [takeBytes] at h
      cases htail : takeBytes count data with
      | none => simp [htail] at h
      | some tail =>
        rw [htail] at h
        cases h
        rw [List.length_cons, ih htail]

/-! ## What reading leaves -/

theorem map_snd_takeByte (data : List UInt8) : (takeByte data).map Prod.snd = skipBytes 1 data := by
  cases data <;> rfl

theorem map_snd_takeWord (count : Nat) (data : List UInt8) :
    (takeWord count data).map Prod.snd = skipBytes count data := by
  rw [skipBytes_eq, takeWord]
  cases takeBytes count data <;> rfl

theorem map_snd_takeSpan (data : List UInt8) : (takeSpan data).map Prod.snd = skipSpan data := by
  rw [takeSpan, skipSpan]
  cases takeWord 4 data with
  | none => rfl
  | some word => exact (skipBytes_eq _ _).symm

theorem map_snd_bind {α β : Type} {first : Option (α × List UInt8)}
    {next : α × List UInt8 → Option (β × List UInt8)} {skipped : Option (List UInt8)}
    {skipNext : List UInt8 → Option (List UInt8)} (hfirst : first.map Prod.snd = skipped)
    (hnext : ∀ taken rest, (next (taken, rest)).map Prod.snd = skipNext rest) :
    (first.bind next).map Prod.snd = skipped.bind skipNext := by
  subst hfirst
  cases first with
  | none => rfl
  | some taken => exact hnext taken.1 taken.2

theorem map_snd_bind_some {α β : Type} {first : Option (α × List UInt8)}
    {skipped : Option (List UInt8)} (hfirst : first.map Prod.snd = skipped) (wrap : α → β) :
    (first.bind fun taken => some (wrap taken.1, taken.2)).map Prod.snd = skipped := by
  subst hfirst
  cases first <;> rfl

theorem map_snd_two {α : Type} (a b : Nat) (data : List UInt8)
    (wrap : BitVec (8 * a) → BitVec (8 * b) → α) :
    ((takeWord a data).bind fun first => (takeWord b first.2).bind fun second =>
      some (wrap first.1 second.1, second.2)).map Prod.snd = skipBytes (a + b) data := by
  rw [skipBytes_add]
  exact map_snd_bind (map_snd_takeWord a data) fun taken rest =>
    map_snd_bind_some (map_snd_takeWord b rest) (wrap taken)

/-- Steps over the payload of a tag, but not over the value of a key. -/
def Tag.skipPayload? (tag : Tag) (data : List UInt8) : Option (List UInt8) :=
  match tag.payloadSize? with
  | some size => skipBytes size data
  | none =>
    match tag with
    | .text => skipBytes 1 data
    | .span | .ascii => skipSpan data
    | .unmanaged => (skipBytes 8 data).bind skipSpan
    | _ => some data

theorem skipWithin_of_header {data after : List UInt8} {header : Header} (fuel : Nat)
    (h : Header.take? data = some (header, after)) (hkey : header.tag ≠ .key) :
    skipWithin (fuel + 1) data = header.tag.skipPayload? after := by
  rw [skipWithin, h]
  simp only
  unfold Tag.skipPayload?
  generalize header.tag = tag at hkey
  cases tag with
  | key => exact absurd rfl hkey
  | _ => rfl

namespace Payload

theorem map_snd_take?_decimal (data : List UInt8) :
    (take? .decimal data).map Prod.snd = skipBytes 16 data := by
  rw [show (16 : Nat) = 4 + (4 + (4 + 4)) from rfl, skipBytes_add 4]
  refine map_snd_bind (map_snd_takeWord 4 data) fun flags data => ?_
  rw [skipBytes_add 4]
  refine map_snd_bind (map_snd_takeWord 4 data) fun low data => ?_
  exact map_snd_two 4 4 data (Payload.decimal flags low)

theorem map_snd_take?_identifier (data : List UInt8) :
    (take? .identifier data).map Prod.snd = skipBytes 16 data := by
  rw [skipBytes_eq]
  change ((takeBytes 16 data).bind _).map _ = _
  cases h : takeBytes 16 data with
  | none => rfl
  | some taken =>
    -- the bytes are sixteen, so they are an identifier
    have hid : Identifier.ofBytes? taken.1 = some ⟨taken.1, length_of_takeBytes h⟩ :=
      dif_pos (length_of_takeBytes h)
    simp [hid]

theorem map_snd_take?_unmanaged (data : List UInt8) :
    (take? .unmanaged data).map Prod.snd = (skipBytes 8 data).bind skipSpan := by
  refine map_snd_bind (map_snd_takeWord 8 data) fun token data => ?_
  exact map_snd_bind_some (map_snd_takeSpan data) (Payload.unmanaged token)

/-- Reading a payload leaves what stepping over it leaves, and fails where that fails. -/
theorem map_snd_take? {tag : Tag} (hkey : tag ≠ .key) (hcut : tag ≠ .cut) (data : List UInt8) :
    (take? tag data).map Prod.snd = tag.skipPayload? data := by
  cases tag with
  | null => rfl
  | text => exact map_snd_bind_some (map_snd_takeByte data) Payload.text
  | span => exact map_snd_bind_some (map_snd_takeSpan data) Payload.span
  | ascii => exact map_snd_bind_some (map_snd_takeSpan data) Payload.ascii
  | bool => exact map_snd_bind_some (map_snd_takeByte data) Payload.bool
  | char => exact map_snd_bind_some (map_snd_takeWord 4 data) Payload.char
  | integer kind => exact map_snd_bind_some (map_snd_takeWord kind.size data) (Payload.integer kind)
  | float32 => exact map_snd_bind_some (map_snd_takeWord 4 data) Payload.float32
  | float64 => exact map_snd_bind_some (map_snd_takeWord 8 data) Payload.float64
  | decimal => exact map_snd_take?_decimal data
  | identifier => exact map_snd_take?_identifier data
  | instant => exact map_snd_two 8 4 data (Payload.instant false)
  | instantUtc => exact map_snd_two 8 4 data (Payload.instant true)
  | date => exact map_snd_bind_some (map_snd_takeWord 4 data) Payload.date
  | time => exact map_snd_two 4 4 data Payload.time
  | duration => exact map_snd_two 8 4 data Payload.duration
  | enum => exact map_snd_two 8 8 data (Payload.enum false)
  | signedEnum => exact map_snd_two 8 8 data (Payload.enum true)
  | unmanaged => exact map_snd_take?_unmanaged data
  | key => exact absurd rfl hkey
  | cut => exact absurd rfl hcut

theorem tag_ne_of_take? {tag : Tag} {data rest : List UInt8} {p : Payload}
    (h : take? tag data = some (p, rest)) : tag ≠ .key ∧ tag ≠ .cut := by
  constructor
  · rintro rfl
    cases h
  · rintro rfl
    cases h

end Payload

/-! ## Readers and what they leave over -/

theorem length_le_of_skipBytes {count : Nat} {data rest : List UInt8}
    (h : skipBytes count data = some rest) : rest.length ≤ data.length := by
  induction count generalizing data with
  | zero =>
    cases h
    exact Nat.le_refl _
  | succ count ih =>
    cases data with
    | nil => cases h
    | cons byte data => exact Nat.le_succ_of_le (ih h)

theorem length_le_of_skipSpan {data rest : List UInt8} (h : skipSpan data = some rest) :
    rest.length ≤ data.length := by
  rw [skipSpan] at h
  cases hword : takeWord 4 data with
  | none => simp [hword] at h
  | some word =>
    have hskip := map_snd_takeWord 4 data
    rw [hword] at h hskip
    exact Nat.le_trans (length_le_of_skipBytes h) (length_le_of_skipBytes hskip.symm)

theorem length_le_of_skipPayload? {tag : Tag} {data rest : List UInt8}
    (h : tag.skipPayload? data = some rest) : rest.length ≤ data.length := by
  unfold Tag.skipPayload? at h
  split at h
  · exact length_le_of_skipBytes h
  · split at h
    · exact length_le_of_skipBytes h
    · exact length_le_of_skipSpan h
    · exact length_le_of_skipSpan h
    · obtain ⟨after, hafter, hrest⟩ := Option.bind_eq_some_iff.1 h
      exact Nat.le_trans (length_le_of_skipSpan hrest) (length_le_of_skipBytes hafter)
    · cases h
      exact Nat.le_refl _

theorem Header.length_lt_of_take? {data rest : List UInt8} {header : Header}
    (h : Header.take? data = some (header, rest)) : rest.length < data.length := by
  cases data with
  | nil => cases h
  | cons raw data =>
    rw [Header.take?] at h
    split at h
    · cases h
    · split at h
      · cases h
        exact Nat.lt_succ_self _
      · split at h
        · cases h
        · cases h
          exact Nat.lt_of_lt_of_le (Nat.lt_succ_self _) (Nat.le_succ _)

theorem length_lt_of_skipWithin {fuel : Nat} {data rest : List UInt8}
    (h : skipWithin fuel data = some rest) : rest.length < data.length := by
  induction fuel generalizing data with
  | zero => cases h
  | succ fuel ih =>
    cases hheader : Header.take? data with
    | none => simp [skipWithin, hheader] at h
    | some taken =>
      obtain ⟨header, after⟩ := taken
      have hafter := Header.length_lt_of_take? hheader
      by_cases hkey : header.tag = .key
      · -- the value of a key is an entry again
        rw [skipWithin, hheader] at h
        simp only [hkey, Tag.payloadSize?] at h
        obtain ⟨value, hvalue, hrest⟩ := Option.bind_eq_some_iff.1 h
        have hle := length_le_of_skipBytes hvalue
        exact Nat.lt_trans (ih hrest) (Nat.lt_of_le_of_lt hle hafter)
      · rw [skipWithin_of_header fuel hheader hkey] at h
        exact Nat.lt_of_le_of_lt (length_le_of_skipPayload? h) hafter

theorem Entry.length_lt_of_take? {data rest : List UInt8} {entry : Entry}
    (h : Entry.take? data = some (entry, rest)) : rest.length < data.length := by
  rw [Entry.take?] at h
  cases hheader : Header.take? data with
  | none => simp [hheader] at h
  | some taken =>
    obtain ⟨header, after⟩ := taken
    have hafter := Header.length_lt_of_take? hheader
    simp only [hheader] at h
    split at h
    · cases h
      exact hafter
    · obtain ⟨left, hleft, hpair⟩ := Option.map_eq_some_iff.1 h
      cases hpair
      obtain ⟨value, hvalue, hrest⟩ := Option.bind_eq_some_iff.1 hleft
      have hle := length_le_of_skipBytes hvalue
      exact Nat.lt_trans (length_lt_of_skipWithin hrest) (Nat.lt_of_le_of_lt hle hafter)
    · obtain ⟨⟨payload, left⟩, htake, hpair⟩ := Option.map_eq_some_iff.1 h
      cases hpair
      obtain ⟨hnotKey, hnotCut⟩ := Payload.tag_ne_of_take? htake
      have hskip := Payload.map_snd_take? hnotKey hnotCut after
      rw [htake] at hskip
      exact Nat.lt_of_le_of_lt (length_le_of_skipPayload? hskip.symm) hafter

end Logbook.Record
