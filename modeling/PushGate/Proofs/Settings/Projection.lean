import PushGate.Proofs.Decimal.Spelling
import PushGate.Settings

/-!
# Settings and the environments that spell them out

Settings can be written down as an environment again: the token and the path as they are, the numbers in
decimal.  Settings that have been loaded have a sound path, whatever the environment was; and settings
with a sound path are what their environment is loaded to, without a report.  So loading projects the
environments onto those that spell out sound settings.

**Results.**
* `soundPath_load`: what is loaded has a sound path.
* `path_of_soundPath`, `number_written`: what has been written down is read back, without a report.
* `load_projects`: loading is a projection.
-/

namespace PushGate
namespace Settings

/-- The environment that spells settings out. -/
def environment (s : Settings) : Environment
  | .token => some (Utf8.ofString s.token)
  | .port => some (Utf8.ofString (toString s.port.toNat))
  | .webhookPath => some (Utf8.ofString s.webhookPath)
  | .poolSize => some (Utf8.ofString (toString s.poolSize.toNat))
  | .maxBodyBytes => some (Utf8.ofString (toString s.maxBodyBytes.toNat))

/-- A path that a webhook may have: it begins with a slash, has no blanks at its ends, and is not that of
the health check. -/
structure SoundPath (path : String) : Prop where
  slash : path.toList.head? = some '/'
  noBlankBefore : ∀ c, path.toList.head? = some c → Text.isBlank c = false
  noBlankBehind : ∀ c, path.toList.getLast? = some c → Text.isBlank c = false
  notReserved : path ≠ "/health"

section Paths

variable {given : List Char} {value : Option String} {p : String}

theorem getLast?_slashed
    (h : given ≠ []) :
    (slashed given).getLast? = given.getLast? := by
  unfold slashed
  split
  · rfl
  · exact List.getLast?_cons_of_ne_nil h

/-- A path that is put together of what is given is sound. -/
theorem soundPath_path : SoundPath (path value).1 := by
  have hdefault : SoundPath default.webhookPath :=
    ⟨rfl, by rintro c ⟨⟩; rfl, by rintro c ⟨⟩; rfl, by decide⟩
  simp only [path]
  split
  · exact hdefault
  rename_i hgiven
  split
  · exact hdefault
  rename_i hother
  refine ⟨?_, ?_, ?_, hother⟩
  · rw [String.toList_ofList, slashed_head]
  · rw [String.toList_ofList, slashed_head]
    rintro c ⟨⟩
    rfl
  · rw [String.toList_ofList, getLast?_slashed hgiven]
    exact fun c => Text.getLast_trim_not_blank

/-- A sound path is read as it is, without a report. -/
theorem path_of_soundPath
    (h : SoundPath p) :
    path (some p) = (p, []) := by
  have htrim : Text.trim p.toList = p.toList := Text.trim_eq_self h.noBlankBefore h.noBlankBehind
  have hgiven : p.toList ≠ [] := by
    intro hnil
    have hslash := h.slash
    rw [hnil] at hslash
    cases hslash
  simp only [path, Option.getD_some, htrim, if_neg hgiven, slashed, if_pos h.slash,
    String.ofList_toList, healthPath, if_neg h.notReserved]

end Paths

/-- A number that has been written in decimal is read back, without a report. -/
theorem number_written
    {α : Type}
    {v : Setting}
    {fallback a : α}
    {n : Nat}
    (parse : List Char → Option α)
    (h : parse (Nat.toDigits 10 n) = some a) :
    number v parse fallback (some (toString n)) = (a, []) := by
  have hdigits : (toString n).toList = Nat.toDigits 10 n := String.toList_ofList
  have hspells : Decimal.Spells (Nat.toDigits 10 n) n :=
    Decimal.signed?_eq_some_iff.1 (Decimal.signed?_toDigits n).1
  simp only [number, hdigits, hspells.trim_eq, h]

theorem atMost?_toDigits
    {high n : Nat}
    (h : n ≤ high) :
    Decimal.atMost? high (Nat.toDigits 10 n) = some n := by
  rw [Decimal.atMost?, Decimal.unsigned?_toDigits]
  exact Option.filter_some_pos (decide_eq_true h)

theorem uint16?_toDigits (n : UInt16) :
    Decimal.uint16? (Nat.toDigits 10 n.toNat) = some n := by
  rw [Decimal.uint16?, atMost?_toDigits (Nat.le_of_lt_succ n.toNat_lt), Option.map_some,
    UInt16.ofNat_toNat]

theorem uint64?_toDigits (n : UInt64) :
    Decimal.uint64? (Nat.toDigits 10 n.toNat) = some n := by
  rw [Decimal.uint64?, atMost?_toDigits (Nat.le_of_lt_succ n.toNat_lt), Option.map_some,
    UInt64.ofNat_toNat]

/-- Settings with a sound path are what their environment is loaded to. -/
theorem load_environment
    {s : Settings}
    (h : SoundPath s.webhookPath) :
    load s.environment = (s, []) := by
  simp only [load, environment, Environment.text?, Option.bind_some, Utf8.string?_ofString,
    Option.getD_some, path_of_soundPath h, number_written _ (uint16?_toDigits s.port),
    number_written _ (uint64?_toDigits s.poolSize),
    number_written _ (uint64?_toDigits s.maxBodyBytes), List.append_nil]

theorem soundPath_load (env : Environment) : SoundPath (load env).1.webhookPath :=
  soundPath_path

/-- **Loading is a projection.**  Whatever the environment, the settings that are loaded have a sound
path, and loading again from the environment that spells them out gives the same settings and reports
nothing; and it is the settings with a sound path, and no others, that are loaded so from their own
environment. -/
theorem load_projects :
    (∀ env : Environment,
      SoundPath (load env).1.webhookPath ∧
        load (load env).1.environment = ((load env).1, [])) ∧
    ∀ s : Settings, SoundPath s.webhookPath ↔ load s.environment = (s, []) := by
  constructor
  · intro env
    exact ⟨soundPath_load env, load_environment (soundPath_load env)⟩
  · intro s
    refine ⟨load_environment, fun h => ?_⟩
    have hsound := soundPath_load s.environment
    rwa [h] at hsound

end Settings
end PushGate
