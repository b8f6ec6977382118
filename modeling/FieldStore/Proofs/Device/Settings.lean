/-
What the settings are, and what is reported.

Each setting is known exactly: it leaves its default if and only if its own variable is set to one
of certain words, or for the limit to a size, however these are spelled.  So a setting depends on
its own variable alone, and on that up to the spelling.

A variable that is set to something else is reported by one warning, in the order of the variables.
The flag for fallback adapters is not: whatever is no spelling of yes means no, silently.
-/
import FieldStore.Proofs.Device.Spelling

namespace FieldStore

/-- Whether a variable is set to one of some words, however spelled. -/
def Says (value : Option String) (words : List String) : Prop :=
  ∃ raw, value = some raw ∧ ∃ word ∈ words, SpelledAlike raw word

/-- Whether a variable is set to a size. -/
def SaysSize (value : Option String) (n : Nat) : Prop :=
  ∃ raw, value = some raw ∧ GivesSize raw n

theorem SpelledAlike.refl (s : String) : SpelledAlike s s := spelledAlike_iff.mpr rfl

theorem SpelledAlike.symm {s t : String} (h : SpelledAlike s t) : SpelledAlike t s :=
  spelledAlike_iff.mpr (spelledAlike_iff.mp h).symm

theorem SpelledAlike.trans {s t u : String} (h : SpelledAlike s t) (h' : SpelledAlike t u) :
    SpelledAlike s u :=
  spelledAlike_iff.mpr ((spelledAlike_iff.mp h).trans (spelledAlike_iff.mp h'))

/-- Words that are their own keywords are told apart by the keyword. -/
theorem exists_spelledAlike_iff {raw : String} {words : List String}
    (hwords : ∀ word ∈ words, keyword word = word) :
    (∃ word ∈ words, SpelledAlike raw word) ↔ keyword raw ∈ words := by
  constructor
  · rintro ⟨word, hmem, halike⟩
    rw [spelledAlike_iff.mp halike, hwords word hmem]
    exact hmem
  · intro hmem
    exact ⟨keyword raw, hmem, spelledAlike_iff.mpr (hwords _ hmem).symm⟩

theorem says_some_iff {raw : String} {words : List String}
    (hwords : ∀ word ∈ words, keyword word = word) :
    Says (some raw) words ↔ keyword raw ∈ words := by
  rw [← exists_spelledAlike_iff hwords]
  constructor
  · rintro ⟨_, hraw, h⟩
    cases hraw
    exact h
  · intro h
    exact ⟨raw, rfl, h⟩

theorem not_says_none (words : List String) : ¬ Says none words := nofun

theorem Says.alike {value value' : Option String} {words : List String}
    (hvalue : Option.Rel SpelledAlike value value') (h : Says value words) : Says value' words := by
  obtain ⟨raw, rfl, word, hmem, halike⟩ := h
  cases hvalue with
  | some hraw => exact ⟨_, rfl, word, hmem, hraw.symm.trans halike⟩

theorem SaysSize.alike {value value' : Option String} {n : Nat}
    (hvalue : Option.Rel SpelledAlike value value') (h : SaysSize value n) : SaysSize value' n := by
  obtain ⟨raw, rfl, hsize⟩ := h
  cases hvalue with
  | some hraw => exact ⟨_, rfl, hraw.givesSize hsize⟩

theorem rel_spelledAlike_symm {value value' : Option String}
    (h : Option.Rel SpelledAlike value value') : Option.Rel SpelledAlike value' value := by
  cases h with
  | some hraw => exact .some hraw.symm
  | none => exact .none

theorem says_congr {value value' : Option String} (h : Option.Rel SpelledAlike value value')
    (words : List String) : Says value words ↔ Says value' words :=
  ⟨.alike h, .alike (rel_spelledAlike_symm h)⟩

theorem saysSize_congr {value value' : Option String} (h : Option.Rel SpelledAlike value value')
    (n : Nat) : SaysSize value n ↔ SaysSize value' n :=
  ⟨.alike h, .alike (rel_spelledAlike_symm h)⟩

theorem rel_spelledAlike_of_eq {value value' : Option String} (h : value = value') :
    Option.Rel SpelledAlike value value' := by
  subst h
  cases value with
  | some raw => exact .some (.refl raw)
  | none => exact .none

namespace Settings

variable {lookup other : String → Option String}

/-! ### Each setting exactly -/

theorem readBackend_eq_host_iff {value : Option String} :
    (readBackend value).1 = .host ↔ Says value ["host", "cpu"] := by
  cases value with
  | none => exact iff_of_false nofun (not_says_none _)
  | some raw =>
      rw [says_some_iff (by decide)]
      unfold readBackend
      dsimp only
      split
      · next h => simp [h]
      · split
        · next h => simpa using h
        · next h => simpa [generic] using h

theorem readPowerPreference_iff {value : Option String} :
    ((readPowerPreference value).1 = .lowPower ↔ Says value ["low"]) ∧
      ((readPowerPreference value).1 = .none ↔ Says value ["none"]) := by
  cases value with
  | none => exact ⟨iff_of_false nofun (not_says_none _), iff_of_false nofun (not_says_none _)⟩
  | some raw =>
      rw [says_some_iff (by decide), says_some_iff (by decide)]
      unfold readPowerPreference
      dsimp only
      split
      · next h => simp [h]
      · split
        · next h => simp [h]
        · split
          · next h => simp [h]
          · next hlow hnone => simp [hlow, hnone, generic]

theorem readForceFallback_iff {value : Option String} :
    readForceFallback value = true ↔ Says value ["1", "true", "yes"] := by
  cases value with
  | none => exact iff_of_false nofun (not_says_none _)
  | some raw =>
      rw [says_some_iff (by decide)]
      simp [readForceFallback]

theorem readMaxBufferBytes_eq_some_iff {value : Option String} {n : Nat} :
    (readMaxBufferBytes value).1 = some n ↔ SaysSize value n := by
  cases value with
  | none => exact iff_of_false nofun nofun
  | some raw =>
      have hsize : SaysSize (some raw) n ↔ GivesSize raw n := by
        constructor
        · rintro ⟨_, hraw, h⟩
          cases hraw
          exact h
        · exact fun h => ⟨raw, rfl, h⟩
      rw [hsize, ← readSize_trimBlanks_iff]
      unfold readMaxBufferBytes
      dsimp only
      split
      · next h => rw [h]
      · next h => simp [h, generic]

/-- Every setting is what its variable says, and nothing else has a part in it. -/
structure FollowsVariables (settings : Settings) (lookup : String → Option String) : Prop where
  backend : settings.backend = .host ↔ Says (lookup "TI_BACKEND") ["host", "cpu"]
  lowPower : settings.powerPreference = .lowPower ↔ Says (lookup "TI_POWER_PREFERENCE") ["low"]
  noPreference : settings.powerPreference = .none ↔ Says (lookup "TI_POWER_PREFERENCE") ["none"]
  forceFallback : settings.forceFallbackAdapter = true ↔
    Says (lookup "TI_FORCE_FALLBACK_ADAPTER") ["1", "true", "yes"]
  maxBufferBytes : ∀ n, settings.maxBufferBytes = some n ↔ SaysSize (lookup "TI_MAX_BUFFER_BYTES") n

theorem followsVariables_ofVariables (lookup : String → Option String) :
    (ofVariables lookup).1.FollowsVariables lookup where
  backend := readBackend_eq_host_iff
  lowPower := readPowerPreference_iff.1
  noPreference := readPowerPreference_iff.2
  forceFallback := readForceFallback_iff
  maxBufferBytes _ := readMaxBufferBytes_eq_some_iff

/-! ### Each setting from its own variable -/

theorem backend_eq_of_iff {backend backend' : Backend}
    (h : backend = .host ↔ backend' = .host) : backend = backend' := by
  cases backend with
  | host => exact (h.mp rfl).symm
  | gpu =>
      cases backend' with
      | gpu => rfl
      | host => exact h.mpr rfl

theorem powerPreference_eq_of_iff {preference preference' : PowerPreference}
    (hlow : preference = .lowPower ↔ preference' = .lowPower)
    (hnone : preference = .none ↔ preference' = .none) : preference = preference' := by
  cases preference with
  | lowPower => exact (hlow.mp rfl).symm
  | none => exact (hnone.mp rfl).symm
  | highPerformance =>
      cases preference' with
      | lowPower => exact hlow.mpr rfl
      | none => exact hnone.mpr rfl
      | highPerformance => rfl

section Congruence

variable {settings settings' : Settings}

theorem FollowsVariables.backend_eq (h : settings.FollowsVariables lookup)
    (h' : settings'.FollowsVariables other)
    (hvalue : Option.Rel SpelledAlike (lookup "TI_BACKEND") (other "TI_BACKEND")) :
    settings.backend = settings'.backend := by
  refine backend_eq_of_iff ?_
  rw [h.backend, h'.backend]
  exact says_congr hvalue _

theorem FollowsVariables.powerPreference_eq (h : settings.FollowsVariables lookup)
    (h' : settings'.FollowsVariables other)
    (hvalue : Option.Rel SpelledAlike (lookup "TI_POWER_PREFERENCE")
      (other "TI_POWER_PREFERENCE")) :
    settings.powerPreference = settings'.powerPreference := by
  refine powerPreference_eq_of_iff ?_ ?_
  · rw [h.lowPower, h'.lowPower]
    exact says_congr hvalue _
  · rw [h.noPreference, h'.noPreference]
    exact says_congr hvalue _

theorem FollowsVariables.forceFallbackAdapter_eq (h : settings.FollowsVariables lookup)
    (h' : settings'.FollowsVariables other)
    (hvalue : Option.Rel SpelledAlike (lookup "TI_FORCE_FALLBACK_ADAPTER")
      (other "TI_FORCE_FALLBACK_ADAPTER")) :
    settings.forceFallbackAdapter = settings'.forceFallbackAdapter := by
  rw [Bool.eq_iff_iff, h.forceFallback, h'.forceFallback]
  exact says_congr hvalue _

theorem FollowsVariables.maxBufferBytes_eq (h : settings.FollowsVariables lookup)
    (h' : settings'.FollowsVariables other)
    (hvalue : Option.Rel SpelledAlike (lookup "TI_MAX_BUFFER_BYTES")
      (other "TI_MAX_BUFFER_BYTES")) :
    settings.maxBufferBytes = settings'.maxBufferBytes := by
  refine Option.ext fun n => ?_
  rw [h.maxBufferBytes, h'.maxBufferBytes]
  exact saysSize_congr hvalue n

end Congruence

theorem ofVariables_congr
    (h : ∀ name ∈ variableNames, Option.Rel SpelledAlike (lookup name) (other name)) :
    (ofVariables lookup).1 = (ofVariables other).1 := by
  have hlookup := followsVariables_ofVariables lookup
  have hother := followsVariables_ofVariables other
  have hbackend := hlookup.backend_eq hother (h _ (by decide))
  have hpower := hlookup.powerPreference_eq hother (h _ (by decide))
  have hfallback := hlookup.forceFallbackAdapter_eq hother (h _ (by decide))
  have hlimit := hlookup.maxBufferBytes_eq hother (h _ (by decide))
  calc (ofVariables lookup).1
      = ⟨(ofVariables lookup).1.backend, (ofVariables lookup).1.powerPreference,
          (ofVariables lookup).1.forceFallbackAdapter, (ofVariables lookup).1.maxBufferBytes⟩ := rfl
    _ = (ofVariables other).1 := by rw [hbackend, hpower, hfallback, hlimit]

/-- **Each setting follows its own variable, up to spelling.**  The backend is the host if and only
if its variable says so, and likewise for the other settings; the limit is a number if and only if
its variable is set, but for white space around it, to decimal digits behind at most one plus sign
whose value is that number and fits in 64 bits, and otherwise there is none.  So the other variables
have no part in a setting, and neither has white space around a value or the case of its letters. -/
theorem settings_follow_variables (lookup : String → Option String) :
    (ofVariables lookup).1.FollowsVariables lookup ∧
    ((¬ ∃ n, SaysSize (lookup "TI_MAX_BUFFER_BYTES") n) →
      (ofVariables lookup).1.maxBufferBytes = none) ∧
    (∀ other : String → Option String,
      (lookup "TI_BACKEND" = other "TI_BACKEND" →
        (ofVariables lookup).1.backend = (ofVariables other).1.backend) ∧
      (lookup "TI_POWER_PREFERENCE" = other "TI_POWER_PREFERENCE" →
        (ofVariables lookup).1.powerPreference = (ofVariables other).1.powerPreference) ∧
      (lookup "TI_FORCE_FALLBACK_ADAPTER" = other "TI_FORCE_FALLBACK_ADAPTER" →
        (ofVariables lookup).1.forceFallbackAdapter = (ofVariables other).1.forceFallbackAdapter) ∧
      (lookup "TI_MAX_BUFFER_BYTES" = other "TI_MAX_BUFFER_BYTES" →
        (ofVariables lookup).1.maxBufferBytes = (ofVariables other).1.maxBufferBytes)) ∧
    ∀ other : String → Option String,
      (∀ name ∈ variableNames, Option.Rel SpelledAlike (lookup name) (other name)) →
        (ofVariables lookup).1 = (ofVariables other).1 := by
  have hlookup := followsVariables_ofVariables lookup
  refine ⟨hlookup, ?_, ?_, fun other => ofVariables_congr⟩
  · intro hnone
    refine Option.eq_none_iff_forall_ne_some.mpr fun n hsome => ?_
    exact hnone ⟨n, (hlookup.maxBufferBytes n).mp hsome⟩
  · intro other
    have hother := followsVariables_ofVariables other
    exact ⟨fun h => hlookup.backend_eq hother (rel_spelledAlike_of_eq h),
      fun h => hlookup.powerPreference_eq hother (rel_spelledAlike_of_eq h),
      fun h => hlookup.forceFallbackAdapter_eq hother (rel_spelledAlike_of_eq h),
      fun h => hlookup.maxBufferBytes_eq hother (rel_spelledAlike_of_eq h)⟩

theorem settings_follow_variables_spelled :
    let lookup : String → Option String := fun name =>
      [("TI_BACKEND", " HOST"), ("TI_POWER_PREFERENCE", "Low\n"),
        ("TI_FORCE_FALLBACK_ADAPTER", "yes"), ("TI_MAX_BUFFER_BYTES", " +0064 ")].lookup name
    let other : String → Option String := fun name =>
      [("TI_BACKEND", "host"), ("TI_POWER_PREFERENCE", "LOW"),
        ("TI_FORCE_FALLBACK_ADAPTER", "\u3000YES"), ("TI_MAX_BUFFER_BYTES", "+0064")].lookup name
    (∀ name ∈ variableNames, Option.Rel SpelledAlike (lookup name) (other name)) ∧
      (ofVariables lookup).1 = (ofVariables other).1 ∧ (ofVariables lookup).1.backend = .host ∧
      (ofVariables other).1.maxBufferBytes = some 64 := by
  intro lookup other
  obtain ⟨hfollows, -, -, hspelling⟩ := settings_follow_variables lookup
  obtain ⟨hfollows', -⟩ := settings_follow_variables other
  have hrel : ∀ name ∈ variableNames, Option.Rel SpelledAlike (lookup name) (other name) := by
    intro name hmem
    simp only [variableNames, List.mem_cons, List.not_mem_nil, or_false] at hmem
    rcases hmem with rfl | rfl | rfl | rfl
    · exact .some (by decide)
    · exact .some (by decide)
    · exact .some (by decide)
    · exact .some (by decide)
  have hdigits : ∀ d ∈ ['0', '0', '6', '4'], d.isDigit = true := List.all_eq_true.mp rfl
  have hsize : SaysSize (other "TI_MAX_BUFFER_BYTES") 64 :=
    ⟨"+0064", rfl, [], ['+', '0', '0', '6', '4'], [], rfl, nofun, nofun,
      ⟨['0', '0', '6', '4'], Or.inr rfl, nofun, hdigits, rfl⟩, by decide⟩
  refine ⟨hrel, hspelling other hrel, hfollows.backend.mpr ?_,
    (hfollows'.maxBufferBytes 64).mpr hsize⟩
  exact ⟨" HOST", rfl, "host", by decide, by decide⟩

end Settings

/-! ### What is reported -/

/-- The variables, in their order. -/
inductive Variable
  | backend
  | powerPreference
  | forceFallback
  | maxBufferBytes
  deriving DecidableEq

namespace Variable

/-- All variables in their order. -/
def all : List Variable := [backend, powerPreference, forceFallback, maxBufferBytes]

/-- The name under which a variable is looked up. -/
def name : Variable → String
  | backend => "TI_BACKEND"
  | powerPreference => "TI_POWER_PREFERENCE"
  | forceFallback => "TI_FORCE_FALLBACK_ADAPTER"
  | maxBufferBytes => "TI_MAX_BUFFER_BYTES"

/-- The words that a variable may be set to. -/
def words : Variable → List String
  | backend => ["gpu", "host", "cpu"]
  | powerPreference => ["high", "low", "none"]
  | forceFallback => ["1", "true", "yes", "0", "false", "no", ""]
  | maxBufferBytes => []

/-- Whether a variable may be set to a value: to one of its words, or to a size. -/
def Recognizes : Variable → String → Prop
  | maxBufferBytes, raw => ∃ n, GivesSize raw n
  | v, raw => ∃ word ∈ v.words, SpelledAlike raw word

/-- The warning that a variable is set to something that it does not recognize.  There is none for
the flag. -/
def warning? : Variable → String → Option Event
  | backend, raw => some (Settings.warning "Unrecognized TI_BACKEND, using gpu" (keyword raw))
  | powerPreference, raw =>
      some (Settings.warning "Unrecognized TI_POWER_PREFERENCE, using high" (keyword raw))
  | forceFallback, _ => none
  | maxBufferBytes, raw => some (Settings.warning "Unparsable TI_MAX_BUFFER_BYTES, ignoring" raw)

/-- Whether the setting of a variable has its generic value. -/
def IsGeneric : Variable → Settings → Prop
  | backend, settings => settings.backend = Settings.generic.backend
  | powerPreference, settings => settings.powerPreference = Settings.generic.powerPreference
  | forceFallback, settings =>
      settings.forceFallbackAdapter = Settings.generic.forceFallbackAdapter
  | maxBufferBytes, settings => settings.maxBufferBytes = Settings.generic.maxBufferBytes

theorem recognizes_size_iff {raw : String} :
    (readSize (trimBlanks raw.toList)).isSome = true ↔ maxBufferBytes.Recognizes raw := by
  rw [Option.isSome_iff_exists]
  exact exists_congr fun n => readSize_trimBlanks_iff

instance : (v : Variable) → (raw : String) → Decidable (v.Recognizes raw)
  | backend, _ | powerPreference, _ | forceFallback, _ => List.decidableBEx _ _
  | maxBufferBytes, _ => decidable_of_iff _ recognizes_size_iff

/-- What is reported of a variable. -/
def reports (v : Variable) (value : Option String) : List Event :=
  match value with
  | none => []
  | some raw => if v.Recognizes raw then [] else (v.warning? raw).toList

theorem warn_of_mem_reports {v : Variable} {value : Option String} {event : Event}
    (h : event ∈ v.reports value) : event.level = .warn := by
  cases value with
  | none => nomatch h
  | some raw =>
      unfold reports at h
      dsimp only at h
      split at h
      · nomatch h
      · have hwarning : v.warning? raw = some event := Option.mem_toList.mp h
        cases v with
        | forceFallback => nomatch hwarning
        | backend | powerPreference | maxBufferBytes => cases hwarning; rfl

/-- A way to read a variable that falls back to a default, and reports just what it does not
recognize. -/
structure ReadBy (v : Variable) {α : Type} (default : α)
    (read : Option String → α × List Event) : Prop where
  unset : read none = (default, [])
  recognized : ∀ raw, v.Recognizes raw → (read (some raw)).2 = []
  unrecognized : ∀ raw, ¬ v.Recognizes raw → read (some raw) = (default, (v.warning? raw).toList)

section ReadBy

variable {v : Variable} {α : Type} {default : α} {read : Option String → α × List Event}
  {value : Option String}

theorem ReadBy.eq_default {raw : String} (h : v.ReadBy default read) (hvalue : value = some raw)
    (hraw : ¬ v.Recognizes raw) : (read value).1 = default := by
  rw [hvalue, h.unrecognized raw hraw]

theorem ReadBy.reports_eq (h : v.ReadBy default read) : (read value).2 = v.reports value := by
  cases value with
  | none => rw [h.unset]; rfl
  | some raw =>
      by_cases hraw : v.Recognizes raw
      · rw [h.recognized raw hraw, reports, if_pos hraw]
      · rw [h.unrecognized raw hraw, reports, if_neg hraw]

end ReadBy

end Variable

namespace Settings

variable {lookup : String → Option String}

theorem readBackend_readBy : Variable.backend.ReadBy generic.backend readBackend where
  unset := rfl
  recognized raw h := by
    have hword : keyword raw ∈ Variable.backend.words := (exists_spelledAlike_iff (by decide)).mp h
    simp only [Variable.words, List.mem_cons, List.not_mem_nil, or_false] at hword
    rcases hword with hgpu | hhost
    · simp only [readBackend, if_pos hgpu]
    · simp only [readBackend, if_pos hhost]
      split <;> rfl
  unrecognized raw h := by
    have hword : keyword raw ∉ Variable.backend.words :=
      mt (exists_spelledAlike_iff (by decide)).mpr h
    simp only [Variable.words, List.mem_cons, List.not_mem_nil, or_false, not_or] at hword
    simp [readBackend, hword, Variable.warning?]

theorem readPowerPreference_readBy :
    Variable.powerPreference.ReadBy generic.powerPreference readPowerPreference where
  unset := rfl
  recognized raw h := by
    have hword : keyword raw ∈ Variable.powerPreference.words :=
      (exists_spelledAlike_iff (by decide)).mp h
    simp only [Variable.words, List.mem_cons, List.not_mem_nil, or_false] at hword
    rcases hword with hword | hword | hword <;> simp [readPowerPreference, hword]
  unrecognized raw h := by
    have hword : keyword raw ∉ Variable.powerPreference.words :=
      mt (exists_spelledAlike_iff (by decide)).mpr h
    simp only [Variable.words, List.mem_cons, List.not_mem_nil, or_false, not_or] at hword
    simp [readPowerPreference, hword, Variable.warning?]

/-- The flag has nothing to report, so a word that it does not recognize is passed over. -/
theorem readForceFallback_readBy :
    Variable.forceFallback.ReadBy generic.forceFallbackAdapter
      (fun value => (readForceFallback value, [])) where
  unset := rfl
  recognized _ _ := rfl
  unrecognized raw h := by
    have hword : keyword raw ∉ Variable.forceFallback.words :=
      mt (exists_spelledAlike_iff (by decide)).mpr h
    simp only [Variable.words, List.mem_cons, List.not_mem_nil, or_false, not_or] at hword
    simp [readForceFallback, hword, Variable.warning?, generic]

theorem readMaxBufferBytes_readBy :
    Variable.maxBufferBytes.ReadBy generic.maxBufferBytes readMaxBufferBytes where
  unset := rfl
  recognized raw h := by
    obtain ⟨n, hsize⟩ := h
    simp only [readMaxBufferBytes, readSize_trimBlanks_iff.mpr hsize]
  unrecognized raw h := by
    have hread : readSize (trimBlanks raw.toList) = none := by
      rw [← Option.not_isSome_iff_eq_none, Variable.recognizes_size_iff]
      exact h
    simp only [readMaxBufferBytes, hread]
    rfl

/-- The log is that of the four variables one after the other. -/
theorem log_eq (lookup : String → Option String) :
    (ofVariables lookup).2 = Variable.all.flatMap fun v => v.reports (lookup v.name) := by
  have hflag : Variable.forceFallback.reports (lookup "TI_FORCE_FALLBACK_ADAPTER") = [] :=
    readForceFallback_readBy.reports_eq.symm
  calc (ofVariables lookup).2
      = (readBackend (lookup "TI_BACKEND")).2
          ++ (readPowerPreference (lookup "TI_POWER_PREFERENCE")).2
          ++ (readMaxBufferBytes (lookup "TI_MAX_BUFFER_BYTES")).2 := rfl
    _ = Variable.all.flatMap fun v => v.reports (lookup v.name) := by
        simp [Variable.all, Variable.name, readBackend_readBy.reports_eq,
          readPowerPreference_readBy.reports_eq, readMaxBufferBytes_readBy.reports_eq, hflag]

theorem isGeneric_of_unrecognized {v : Variable} {raw : String} (hset : lookup v.name = some raw)
    (h : ¬ v.Recognizes raw) : v.IsGeneric (ofVariables lookup).1 := by
  cases v with
  | backend => exact readBackend_readBy.eq_default hset h
  | powerPreference => exact readPowerPreference_readBy.eq_default hset h
  | forceFallback => exact readForceFallback_readBy.eq_default hset h
  | maxBufferBytes => exact readMaxBufferBytes_readBy.eq_default hset h

/-- **Every setting that is not recognized is reported, but for the flag.**  The log has one warning
for each variable that is set to something it does not recognize, in the order of the variables, and
nothing else; the flag has no warning.  The settings of all such variables, the flag included, have
their generic values. -/
theorem unrecognized_reported (lookup : String → Option String) :
    (ofVariables lookup).2 = Variable.all.flatMap (fun v => v.reports (lookup v.name)) ∧
    (∀ event ∈ (ofVariables lookup).2, event.level = .warn) ∧
    (∀ (v : Variable) (raw : String), lookup v.name = some raw → ¬ v.Recognizes raw →
      v.IsGeneric (ofVariables lookup).1 ∧
        (v ≠ .forceFallback → ∃ event, v.reports (lookup v.name) = [event])) := by
  refine ⟨log_eq lookup, ?_, ?_⟩
  · intro event hmem
    rw [log_eq] at hmem
    obtain ⟨v, -, hreport⟩ := List.mem_flatMap.mp hmem
    exact Variable.warn_of_mem_reports hreport
  · intro v raw hset h
    refine ⟨isGeneric_of_unrecognized hset h, fun hflag => ?_⟩
    rw [hset, Variable.reports, if_neg h]
    cases v with
    | forceFallback => exact absurd rfl hflag
    | backend | powerPreference | maxBufferBytes => exact ⟨_, rfl⟩

theorem unrecognized_reported_in_order :
    let lookup : String → Option String := fun name =>
      [("TI_BACKEND", " Quantum "), ("TI_FORCE_FALLBACK_ADAPTER", "maybe"),
        ("TI_MAX_BUFFER_BYTES", "-1")].lookup name
    ¬ Variable.forceFallback.Recognizes "maybe" ∧
      (ofVariables lookup).1.forceFallbackAdapter = false ∧
      (ofVariables lookup).2 =
        [⟨.warn, "Unrecognized TI_BACKEND, using gpu", [("value", "quantum")]⟩,
          ⟨.warn, "Unparsable TI_MAX_BUFFER_BYTES, ignoring", [("value", "-1")]⟩] := by
  intro lookup
  obtain ⟨hlog, -, hunrecognized⟩ := unrecognized_reported lookup
  have hflag : ¬ Variable.forceFallback.Recognizes "maybe" := by decide
  refine ⟨hflag, (hunrecognized .forceFallback "maybe" rfl hflag).1, ?_⟩
  rw [hlog]
  decide

/-- The flag set to a word that is no spelling of yes or no: nothing is reported. -/
theorem unrecognized_flag_passed_over :
    let lookup : String → Option String := fun name =>
      [("TI_FORCE_FALLBACK_ADAPTER", "maybe")].lookup name
    lookup Variable.forceFallback.name = some "maybe" ∧
      ¬ Variable.forceFallback.Recognizes "maybe" ∧ (ofVariables lookup).2 = [] := by
  decide

end Settings

end FieldStore
