import PushGate.Proofs.Decimal.Spelling
import PushGate.Proofs.Utf8.Strict
import PushGate.Settings

/-!
# Settings that are numbers

Three variables hold numbers.  What is given in one of them either denotes a number in range, which is
then the setting, or it does not, and then the setting has its default and this is reported once, with
the text as it was given.  A variable that is not there, or that holds no text, goes unreported.

No variable has a say in the setting of another, or in what is reported of it; and the reports come in the
order in which the variables are read.

**Results.**
* `atMost?_trim_eq_some_iff`: the texts that are read as a bounded number.
* `sets_iff_number`: what becomes of one variable.
* `reportsOf_load`: the reports of one variable are those that reading it gives.
* `load_numbers`: the three numbers, their reports, and their independence.
-/

namespace PushGate

namespace Decimal

variable {content : List Char} {high n : Nat}

/-- What is read of a text is the number that it denotes, if that is no greater than the bound. -/
theorem atMost?_trim_eq_some_iff :
    atMost? high (Text.trim content) = some n ↔ DenotesUnsigned content n ∧ n ≤ high := by
  rw [atMost?, Option.filter_eq_some_iff, unsigned?_trim_eq_some_iff, decide_eq_true_iff]

theorem map_toNat_uint16?
    (text : List Char) :
    (uint16? text).map UInt16.toNat = atMost? 0xFFFF text := by
  rw [uint16?, Option.map_map]
  refine (Option.map_congr fun n hn => ?_).trans Option.map_id_apply
  have hbound : n ≤ 0xFFFF := of_decide_eq_true (Option.filter_eq_some_iff.1 hn).2
  exact UInt16.toNat_ofNat_of_lt' (Nat.lt_succ_of_le hbound)

theorem map_toNat_uint64?
    (text : List Char) :
    (uint64? text).map UInt64.toNat = atMost? 0xFFFFFFFFFFFFFFFF text := by
  rw [uint64?, Option.map_map]
  refine (Option.map_congr fun n hn => ?_).trans Option.map_id_apply
  have hbound : n ≤ 0xFFFFFFFFFFFFFFFF := of_decide_eq_true (Option.filter_eq_some_iff.1 hn).2
  exact UInt64.toNat_ofNat_of_lt' (Nat.lt_succ_of_le hbound)

end Decimal

open Decimal (DenotesUnsigned)

/-- The settings that are numbers. -/
inductive NumberSetting where
  | port
  | poolSize
  | maxBodyBytes

namespace NumberSetting

/-- The setting among all settings. -/
def setting : NumberSetting → Setting
  | .port => .port
  | .poolSize => .poolSize
  | .maxBodyBytes => .maxBodyBytes

/-- The greatest number of the setting's type. -/
def greatest : NumberSetting → Nat
  | .port => 0xFFFF
  | .poolSize => 0xFFFFFFFFFFFFFFFF
  | .maxBodyBytes => 0xFFFFFFFFFFFFFFFF

/-- The number of the setting where none is given. -/
def fallback : NumberSetting → Nat
  | .port => 8080
  | .poolSize => 100
  | .maxBodyBytes => 1048576

/-- The number that the settings hold. -/
def value (s : Settings) : NumberSetting → Nat
  | .port => s.port.toNat
  | .poolSize => s.poolSize.toNat
  | .maxBodyBytes => s.maxBodyBytes.toNat

/-- What is given in a variable sets its number, with these reports. -/
inductive Sets (v : NumberSetting) : Option Bytes → Nat → List LogEntry → Prop
  | unset
      {given : Option Bytes}
      (noText : ∀ text : String, given ≠ some (Utf8.ofString text)) :
      Sets v given v.fallback []
  | number
      {text : String} {n : Nat}
      (denotes : DenotesUnsigned text.toList n)
      (within : n ≤ v.greatest) :
      Sets v (some (Utf8.ofString text)) n []
  | refused
      {text : String}
      (noNumber : ¬ ∃ n, DenotesUnsigned text.toList n ∧ n ≤ v.greatest) :
      Sets v (some (Utf8.ofString text)) v.fallback [.invalidSetting v.setting.name text]

end NumberSetting

/-- The variable that is reported. -/
def LogEntry.variable? : LogEntry → Option String
  | .invalidSetting setting _ => some setting
  | .reservedPath setting _ => some setting
  | _ => none

namespace Setting

/-- What a log reports of a variable. -/
def reportsOf (v : Setting) (log : List LogEntry) : List LogEntry :=
  log.filter fun e => e.variable? = some v.name

theorem reportsOf_append (v : Setting) (log later : List LogEntry) :
    v.reportsOf (log ++ later) = v.reportsOf log ++ v.reportsOf later :=
  List.filter_append log later

/-- No two variables have the same name. -/
theorem name_injective
    {v w : Setting}
    (h : v.name = w.name) :
    v = w := by
  revert h
  cases v <;> cases w <;> decide

/-- The type of a setting. -/
def Carrier : Setting → Type
  | .token => String
  | .port => UInt16
  | .webhookPath => String
  | .poolSize => UInt64
  | .maxBodyBytes => UInt64

end Setting

def Settings.get (s : Settings) : (v : Setting) → v.Carrier
  | .token => s.token
  | .port => s.port
  | .webhookPath => s.webhookPath
  | .poolSize => s.poolSize
  | .maxBodyBytes => s.maxBodyBytes

namespace NumberSetting

section Reading

variable {v : NumberSetting} {given : Option Bytes} {text : String} {n : Nat} {log : List LogEntry}

theorem sets_iff_of_no_text
    (hnone : ∀ text : String, given ≠ some (Utf8.ofString text)) :
    v.Sets given n log ↔ n = v.fallback ∧ log = [] := by
  constructor
  · intro h
    cases h with
    | unset _ => exact ⟨rfl, rfl⟩
    | number _ _ => exact absurd rfl (hnone _)
    | refused _ => exact absurd rfl (hnone _)
  · rintro ⟨rfl, rfl⟩
    exact .unset hnone

theorem sets_iff_of_text :
    v.Sets (some (Utf8.ofString text)) n log ↔
      (DenotesUnsigned text.toList n ∧ n ≤ v.greatest ∧ log = []) ∨
      ((¬ ∃ m, DenotesUnsigned text.toList m ∧ m ≤ v.greatest) ∧
        n = v.fallback ∧ log = [.invalidSetting v.setting.name text]) := by
  constructor
  · intro h
    generalize hgiven : some (Utf8.ofString text) = given at h
    cases h with
    | unset noText => exact absurd hgiven.symm (noText text)
    | number denotes within =>
        obtain rfl := Utf8.ofString_injective (Option.some.inj hgiven)
        exact .inl ⟨denotes, within, rfl⟩
    | refused noNumber =>
        obtain rfl := Utf8.ofString_injective (Option.some.inj hgiven)
        exact .inr ⟨noNumber, rfl, rfl⟩
  · rintro (⟨hdenotes, hwithin, rfl⟩ | ⟨hnone, rfl, rfl⟩)
    · exact .number hdenotes hwithin
    · exact .refused hnone

/-- What becomes of a variable that is read as a number, of one type or another. -/
theorem sets_iff_number
    {α : Type}
    {default : α}
    (parse : List Char → Option α)
    (toNat : α → Nat)
    (hparse : ∀ {content m},
      (parse (Text.trim content)).map toNat = some m ↔ DenotesUnsigned content m ∧ m ≤ v.greatest)
    (hdefault : toNat default = v.fallback) :
    let r := Settings.number v.setting parse default (given.bind Utf8.string?)
    v.Sets given n log ↔ n = toNat r.1 ∧ log = r.2 := by
  intro r
  cases htext : given.bind Utf8.string? with
  | none =>
      have hr : r = (default, []) := by
        simp only [r, htext, Settings.number]
      rw [sets_iff_of_no_text, hr, hdefault]
      rintro text rfl
      simp at htext
  | some text =>
      obtain ⟨bytes, rfl, hbytes⟩ := Option.bind_eq_some_iff.1 htext
      obtain rfl := Utf8.string?_eq_some_iff.1 hbytes
      rw [sets_iff_of_text]
      cases hvalue : parse (Text.trim text.toList) with
      | some a =>
          have hr : r = (a, []) := by
            simp only [r, htext, Settings.number, hvalue]
          have hdenotes : ∀ m, DenotesUnsigned text.toList m ∧ m ≤ v.greatest ↔ m = toNat a := by
            intro m
            rw [← hparse, hvalue, Option.map_some, Option.some_inj]
            exact eq_comm
          have hgiven : ∃ m, DenotesUnsigned text.toList m ∧ m ≤ v.greatest :=
            ⟨_, (hdenotes _).2 rfl⟩
          rw [← and_assoc, hdenotes, hr]
          simp [hgiven]
      | none =>
          have hr : r = (default, [.invalidSetting v.setting.name text]) := by
            simp only [r, htext, Settings.number, hvalue]
          have hnone : ∀ m, ¬ (DenotesUnsigned text.toList m ∧ m ≤ v.greatest) := by
            intro m hm
            rw [← hparse, hvalue] at hm
            cases hm
          rw [← and_assoc, hr, hdefault]
          simp only [hnone, false_and, exists_false, not_false_iff, true_and, false_or]

end Reading

end NumberSetting

namespace Settings

/-- What reading a variable reports. -/
def reports (env : Environment) : Setting → List LogEntry
  | .token => []
  | .port => (number .port Decimal.uint16? default.port (env.text? .port)).2
  | .webhookPath => (path (env.text? .webhookPath)).2
  | .poolSize => (number .poolSize Decimal.uint64? default.poolSize (env.text? .poolSize)).2
  | .maxBodyBytes =>
      (number .maxBodyBytes Decimal.uint64? default.maxBodyBytes (env.text? .maxBodyBytes)).2

section Loading

variable {env env' : Environment} {v : Setting}

theorem load_snd :
    (load env).2 =
      reports env .port ++ reports env .webhookPath ++ reports env .poolSize ++
        reports env .maxBodyBytes := rfl

theorem variable?_number
    {α : Type}
    {parse : List Char → Option α}
    {fallback : α}
    {given : Option String} :
    ∀ e ∈ (number v parse fallback given).2, e.variable? = some v.name := by
  intro e he
  unfold number at he
  split at he
  · cases he
  split at he
  · cases he
  · rw [List.mem_singleton.1 he]
    rfl

theorem variable?_path
    {given : Option String} :
    ∀ e ∈ (path given).2, e.variable? = some Setting.webhookPath.name := by
  intro e he
  simp only [path] at he
  split at he
  · cases he
  split at he
  · rw [List.mem_singleton.1 he]
    rfl
  · cases he

/-- Reading a variable reports of no other one. -/
theorem variable?_reports :
    ∀ e ∈ reports env v, e.variable? = some v.name := by
  cases v with
  | token => nofun
  | webhookPath => exact variable?_path
  | port | poolSize | maxBodyBytes => exact variable?_number

theorem reportsOf_reports
    {w : Setting} :
    v.reportsOf (reports env w) = if w = v then reports env w else [] := by
  by_cases hwv : w = v
  · rw [if_pos hwv]
    refine List.filter_eq_self.2 fun e he => decide_eq_true ?_
    rw [variable?_reports e he, hwv]
  · rw [if_neg hwv]
    refine List.filter_eq_nil_iff.2 fun e he => ?_
    rw [decide_eq_true_iff, variable?_reports e he]
    exact fun hname => hwv (Setting.name_injective (Option.some.inj hname))

/-- The reports of one variable are those that reading it gives. -/
theorem reportsOf_load :
    v.reportsOf (load env).2 = reports env v := by
  rw [load_snd]
  simp only [Setting.reportsOf_append, reportsOf_reports]
  cases v <;> simp [reports]

theorem text?_congr
    (h : env v = env' v) :
    env.text? v = env'.text? v := by
  rw [Environment.text?, Environment.text?, h]

/-- A setting depends on its own variable only. -/
theorem get_load_congr
    (h : env v = env' v) :
    (load env).1.get v = (load env').1.get v := by
  have htext := text?_congr h
  cases v with
  | token => exact congrArg (fun text => text.getD "") htext
  | port => exact congrArg (fun text => (number .port _ _ text).1) htext
  | webhookPath => exact congrArg (fun text => (path text).1) htext
  | poolSize => exact congrArg (fun text => (number .poolSize _ _ text).1) htext
  | maxBodyBytes => exact congrArg (fun text => (number .maxBodyBytes _ _ text).1) htext

theorem reports_congr
    (h : env v = env' v) :
    reports env v = reports env' v := by
  have htext := text?_congr h
  cases v with
  | token => rfl
  | port | webhookPath | poolSize | maxBodyBytes => simp only [reports, htext]

/-- A number and its reports are what the bytes of its variable make them. -/
theorem sets_load_iff
    {w : NumberSetting}
    {n : Nat}
    {log : List LogEntry} :
    w.Sets (env w.setting) n log ↔
      n = w.value (load env).1 ∧ log = w.setting.reportsOf (load env).2 := by
  rw [reportsOf_load]
  cases w with
  | port =>
      refine NumberSetting.sets_iff_number Decimal.uint16? UInt16.toNat ?_ rfl
      intro content m
      rw [Decimal.map_toNat_uint16?]
      exact Decimal.atMost?_trim_eq_some_iff
  | poolSize | maxBodyBytes =>
      refine NumberSetting.sets_iff_number Decimal.uint64? UInt64.toNat ?_ rfl
      intro content m
      rw [Decimal.map_toNat_uint64?]
      exact Decimal.atMost?_trim_eq_some_iff

end Loading

/-- **Settings that are numbers.**  Each of the three is the number that its variable denotes, if that is
in range, and its default otherwise; of a text that denotes none in range there is one report, with the
text, and of a variable without text there is none.  Variables have no say in each other's settings and
reports, and reports come in the order of the variables. -/
theorem load_numbers (env : Environment) :
    (∀ (v : NumberSetting) n log, v.Sets (env v.setting) n log ↔
      n = v.value (load env).1 ∧ log = v.setting.reportsOf (load env).2) ∧
    (∀ (other : Environment) (v : Setting), env v = other v →
      (load env).1.get v = (load other).1.get v ∧
        v.reportsOf (load env).2 = v.reportsOf (load other).2) ∧
    (load env).2 =
      [Setting.port, .webhookPath, .poolSize, .maxBodyBytes].flatMap
        fun v => v.reportsOf (load env).2 := by
  refine ⟨fun v n log => sets_load_iff, ?_, ?_⟩
  · intro other v hsame
    rw [reportsOf_load, reportsOf_load]
    exact ⟨get_load_congr hsame, reports_congr hsame⟩
  · simp only [reportsOf_load, List.flatMap_cons, List.flatMap_nil, List.append_nil]
    rw [load_snd, List.append_assoc, List.append_assoc]

/-- The greatest port, a pool size with a minus, and a length just above its type. -/
theorem load_numbers_bounds :
    let env : Environment := fun
      | .token => none
      | .port => some (Utf8.ofString "\u3000+0065535\n")
      | .webhookPath => some (Utf8.ofString "health")
      | .poolSize => some (Utf8.ofString "-0")
      | .maxBodyBytes => some (Utf8.ofString "18446744073709551616")
    let other : Environment := fun v => if v = .port then env .port else none
    (NumberSetting.port.value (load env).1 = 65535 ∧
      Setting.port.reportsOf (load env).2 = []) ∧
    (NumberSetting.poolSize.value (load env).1 = 100 ∧
      Setting.poolSize.reportsOf (load env).2 = [.invalidSetting "REQUEST_POOL_SIZE" "-0"]) ∧
    (NumberSetting.maxBodyBytes.value (load env).1 = 1048576 ∧
      Setting.maxBodyBytes.reportsOf (load env).2 =
        [.invalidSetting "MAX_BODY_BYTES" "18446744073709551616"]) ∧
    env .port = other .port ∧
      (load env).1.get .port = (load other).1.get .port ∧
      Setting.port.reportsOf (load env).2 = Setting.port.reportsOf (load other).2 := by
  intro env other
  obtain ⟨hsets, hapart, -⟩ := load_numbers env
  have hnone : ∀ {high : Nat} {content : List Char},
      Decimal.atMost? high (Text.trim content) = none →
        ¬ ∃ n, DenotesUnsigned content n ∧ n ≤ high := by
    rintro high content hrefused ⟨n, hn⟩
    rw [← Decimal.atMost?_trim_eq_some_iff, hrefused] at hn
    cases hn
  have hport : DenotesUnsigned "\u3000+0065535\n".toList 65535 :=
    Decimal.unsigned?_trim_eq_some_iff.1 (by decide +kernel)
  obtain ⟨hvalue, hreports⟩ := (hsets .port _ _).1 (.number hport (by decide))
  obtain ⟨hvalue', hreports'⟩ := (hsets .poolSize _ _).1 (.refused (hnone (by decide +kernel)))
  obtain ⟨hvalue'', hreports''⟩ :=
    (hsets .maxBodyBytes _ _).1 (.refused (hnone (by decide +kernel)))
  exact ⟨⟨hvalue.symm, hreports.symm⟩, ⟨hvalue'.symm, hreports'.symm⟩,
    ⟨hvalue''.symm, hreports''.symm⟩, rfl, hapart other .port rfl⟩

end Settings

end PushGate
