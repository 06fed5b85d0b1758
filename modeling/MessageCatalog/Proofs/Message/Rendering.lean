import MessageCatalog.Message.Pattern
import MessageCatalog.Proofs.Traversal

namespace MessageCatalog

open Text (Run)
open Traversal

section Runs

variable {α ε : Type}

def writeRun (f : α → Except ε String) : Run α → Except ε String
  | .text t => .ok t
  | .item a => f a

theorem write_runs {f : α → Except ε String} {g : List (Run α) → Except ε String} (hnil : g [] = .ok "")
    (htext : ∀ t rest, g (.text t :: rest) = (g rest).map (t ++ ·))
    (hitem : ∀ a rest, g (.item a :: rest) = do
      let now ← f a
      let later ← g rest
      return now ++ later)
    (runs : List (Run α)) : g runs = (runs.mapM (writeRun f)).map String.join := by
  induction runs with
  | nil => exact hnil
  | cons r runs ih =>
    cases r with
    | text t =>
      have ht : writeRun f (.text t) = .ok t := rfl
      rw [htext, ih, mapM_cons_ok ht]
      cases runs.mapM (writeRun f) <;> simp [Except.map]
    | item a =>
      rw [hitem, ih]
      cases ha : f a with
      | error e =>
        have hr : writeRun f (.item a) = .error e := ha
        rw [mapM_cons_error hr]
        rfl
      | ok t =>
        have hr : writeRun f (.item a) = .ok t := ha
        rw [mapM_cons_ok hr]
        cases runs.mapM (writeRun f) <;> simp [Except.map, bind, Except.bind, pure, Except.pure]

theorem failsFirst_runs {f : α → Except ε String} {runs : List (Run α)} {e : ε} :
    FailsFirst (fun r e => writeRun f r = .error e) runs e ↔
      FailsFirst (fun a e => f a = .error e) (Run.items runs) e := by
  induction runs with
  | nil => simp only [Run.items, failsFirst_nil]
  | cons r runs ih =>
    cases r with
    | text t =>
      have ht : ∀ e, writeRun f (.text t) ≠ .error e := nofun
      rw [failsFirst_cons, Run.items, ih]
      simp [ht]
    | item a =>
      rw [Run.items, failsFirst_cons, failsFirst_cons, ih]
      rfl

theorem map_join_eq_error_iff {f : α → Except ε String} {runs : List (Run α)} {e : ε} :
    (runs.mapM (writeRun f)).map String.join = .error e ↔
      FailsFirst (fun a e => f a = .error e) (Run.items runs) e := by
  rw [← failsFirst_runs, ← mapM_eq_error_iff]
  cases runs.mapM (writeRun f) <;> simp [Except.map]

theorem map_join_eq_ok_iff {f : α → Except ε String} {runs : List (Run α)} {t : String} :
    (runs.mapM (writeRun f)).map String.join = .ok t ↔
      ∃ parts, List.Forall₂ (fun r part => writeRun f r = .ok part) runs parts ∧ t = String.join parts := by
  simp only [← mapM_eq_ok_iff]
  cases runs.mapM (writeRun f) <;> simp [Except.map, eq_comm]

end Runs

namespace Place

def Resolves (length : Nat) (p : Place) : Prop :=
  0 ≤ p.position length ∧ p.position length < length

def Misses (length : Nat) (p : Place) (e : FormatProblem) : Prop :=
  ¬p.Resolves length ∧ e = .indexOutOfRange (p.position length) length

theorem resolve_of_resolves {length : Nat} {p : Place} (h : p.Resolves length) :
    p.resolve length = .ok (p.position length).toNat := by
  rw [resolve]
  exact if_pos h

theorem resolve_eq_error_iff {length : Nat} {p : Place} {e : FormatProblem} :
    p.resolve length = .error e ↔ p.Misses length e := by
  by_cases h : p.Resolves length
  · rw [resolve_of_resolves h]
    exact ⟨nofun, fun hm => absurd h hm.1⟩
  · have hresolve : p.resolve length = .error (.indexOutOfRange (p.position length) length) := by
      rw [resolve]
      exact if_neg h
    rw [hresolve, Misses, Except.error.injEq]
    exact ⟨fun he => ⟨h, he.symm⟩, fun hm => hm.2.symm⟩

end Place

namespace RangePattern

def placesOf : RangeItem → List Place
  | .element place => [place]
  | .join start _ stop => [.fromStart start, stop]

def places (p : RangePattern) : List Place :=
  (Run.items p.segments).flatMap placesOf

variable {elements : List Value} {l : Locale} {e : FormatProblem}

theorem writeItem_eq_error_iff {item : RangeItem} :
    writeItem elements l item = .error e ↔
      FailsFirst (Place.Misses elements.length) (placesOf item) e := by
  cases item with
  | element place =>
    rw [placesOf, failsFirst_cons, ← Place.resolve_eq_error_iff, writeItem]
    cases place.resolve elements.length <;>
      simp [failsFirst_nil, bind, Except.bind, pure, Except.pure]
  | join start separator stop =>
    simp only [placesOf, failsFirst_cons, failsFirst_nil, ← Place.resolve_eq_error_iff, writeItem]
    cases (Place.fromStart start).resolve elements.length <;>
      cases stop.resolve elements.length <;>
      simp [bind, Except.bind, pure, Except.pure]

theorem write_eq (p : RangePattern) (elements : List Value) (l : Locale) :
    p.write elements l = (p.segments.mapM (writeRun (writeItem elements l))).map String.join :=
  write_runs (g := writeRuns elements l) rfl (fun _ _ => rfl) (fun _ _ => rfl) p.segments

theorem write_eq_error_iff {p : RangePattern} :
    p.write elements l = .error e ↔ FailsFirst (Place.Misses elements.length) p.places e := by
  rw [write_eq, map_join_eq_error_iff, places, failsFirst_flatMap]
  exact failsFirst_congr (fun _ _ => writeItem_eq_error_iff) _ _

end RangePattern

namespace Value

def IsNumber : Value → Prop
  | integer _ => True
  | double _ => True
  | _ => False

def IsInstant : Value → Prop
  | moment _ => True
  | integer n => Moment.firstMilli ≤ n.toInt ∧ n.toInt ≤ Moment.lastMilli
  | _ => False

theorem numeric_eq_error_iff {v : Value} {e : FormatProblem} :
    v.numeric = .error e ↔ ¬v.IsNumber ∧ e = .typeMismatch .number v.kind := by
  cases v <;> simp [numeric, IsNumber, eq_comm]

theorem instant_eq_error_iff {v : Value} {wanted : Wanted} {e : FormatProblem} :
    v.instant wanted = .error e ↔ ¬v.IsInstant ∧ e = .typeMismatch wanted v.kind := by
  cases v with
  | integer n =>
    rw [instant, IsInstant, Moment.ofEpochMillis?]
    split <;> simp_all [eq_comm]
  | _ => simp [instant, IsInstant, eq_comm]

end Value

namespace ArgumentFormat

/-- The value cannot be written by the format, with the problem that is reported. What is no sequence has
no elements. -/
inductive Rejects (v : Value) : ArgumentFormat → FormatProblem → Prop
  | number (style : NumberStyle) (h : ¬v.IsNumber) :
    Rejects v (.number style) (.typeMismatch .number v.kind)
  | date (style : DateStyle) (h : ¬v.IsInstant) : Rejects v (.date style) (.typeMismatch .date v.kind)
  | time (style : DateStyle) (h : ¬v.IsInstant) : Rejects v (.time style) (.typeMismatch .time v.kind)
  | choice (c : Choice) (h : ¬v.IsNumber) : Rejects v (.choice c) (.typeMismatch .number v.kind)
  | range {p : RangePattern} {e : FormatProblem}
      (h : FailsFirst (Place.Misses (v.items?.getD []).length) p.places e) : Rejects v (.range p) e

def Fits (v : Value) : ArgumentFormat → Prop
  | untyped => True
  | number _ | choice _ => v.IsNumber
  | date _ | time _ => v.IsInstant
  | range p => ∀ place ∈ p.places, place.Resolves (v.items?.getD []).length

variable {v : Value} {f : ArgumentFormat} {e : FormatProblem}

theorem write_eq_error_iff {l : Locale} : f.write l v = .error e ↔ f.Rejects v e := by
  cases f with
  | untyped => exact ⟨nofun, nofun⟩
  | number style =>
    rw [write, map_eq_error_iff, Value.numeric_eq_error_iff]
    exact ⟨fun ⟨h, he⟩ => he ▸ .number style h, fun | .number _ h => ⟨h, rfl⟩⟩
  | date style =>
    rw [write, map_eq_error_iff, Value.instant_eq_error_iff]
    exact ⟨fun ⟨h, he⟩ => he ▸ .date style h, fun | .date _ h => ⟨h, rfl⟩⟩
  | time style =>
    rw [write, map_eq_error_iff, Value.instant_eq_error_iff]
    exact ⟨fun ⟨h, he⟩ => he ▸ .time style h, fun | .time _ h => ⟨h, rfl⟩⟩
  | choice c =>
    rw [write, map_eq_error_iff, Value.numeric_eq_error_iff]
    exact ⟨fun ⟨h, he⟩ => he ▸ .choice c h, fun | .choice _ h => ⟨h, rfl⟩⟩
  | range p =>
    rw [write, RangePattern.write_eq_error_iff]
    exact ⟨.range, fun | .range h => h⟩

theorem exists_rejects_iff : (∃ e, f.Rejects v e) ↔ ¬f.Fits v := by
  cases f with
  | untyped => exact ⟨nofun, fun h => absurd trivial h⟩
  | number style => exact ⟨fun | ⟨_, .number _ h⟩ => h, fun h => ⟨_, .number style h⟩⟩
  | date style => exact ⟨fun | ⟨_, .date _ h⟩ => h, fun h => ⟨_, .date style h⟩⟩
  | time style => exact ⟨fun | ⟨_, .time _ h⟩ => h, fun h => ⟨_, .time style h⟩⟩
  | choice c => exact ⟨fun | ⟨_, .choice _ h⟩ => h, fun h => ⟨_, .choice c h⟩⟩
  | range p =>
    have hmisses : (∃ e, FailsFirst (Place.Misses (v.items?.getD []).length) p.places e) ↔
        ¬∀ place ∈ p.places, place.Resolves (v.items?.getD []).length := by
      simp [exists_failsFirst_iff, Place.Misses]
    rw [Fits, ← hmisses]
    exact ⟨fun | ⟨e, .range h⟩ => ⟨e, h⟩, fun ⟨e, h⟩ => ⟨e, .range h⟩⟩

end ArgumentFormat

namespace MessagePattern

def Misfits (vs : List Value) (q : Placeholder) (e : FormatProblem) : Prop :=
  ∃ v, vs[q.index]? = some v ∧ v ≠ .null ∧ q.format.Rejects v e

inductive Shows (l : Locale) (arguments : Option (List Value)) : Segment → String → Prop
  | text (t : String) : Shows l arguments (.text t) t
  | absent {q : Placeholder} (h : (arguments.bind fun vs => vs[q.index]?) = none) :
    Shows l arguments (.item q) ("\x7b" ++ Text.natText q.index ++ "\x7d")
  | null {q : Placeholder} (h : (arguments.bind fun vs => vs[q.index]?) = some .null) :
    Shows l arguments (.item q) "null"
  | value {q : Placeholder} {v : Value} {t : String}
      (h : (arguments.bind fun vs => vs[q.index]?) = some v) (hv : v ≠ .null)
      (ht : q.format.write l v = .ok t) : Shows l arguments (.item q) t

variable {p : MessagePattern} {l : Locale} {arguments : Option (List Value)} {vs : List Value}
  {q : Placeholder} {e : FormatProblem} {t : String}

theorem writePlaceholder_of_ne_null {v : Value} (h : (arguments.bind fun vs => vs[q.index]?) = some v)
    (hv : v ≠ .null) : writePlaceholder l arguments q = q.format.write l v := by
  rw [writePlaceholder, h]
  cases v <;> first | rfl | exact absurd rfl hv

theorem writePlaceholder_eq_error_iff :
    writePlaceholder l (some vs) q = .error e ↔ Misfits vs q e := by
  constructor
  · intro h
    rw [writePlaceholder, Option.bind_some] at h
    split at h
    case h_1 => cases h
    case h_2 => cases h
    case h_3 v hne hv => exact ⟨v, hv, hne, ArgumentFormat.write_eq_error_iff.mp h⟩
  · rintro ⟨v, hv, hne, hrejects⟩
    have hv' : ((some vs).bind fun vs => vs[q.index]?) = some v := hv
    rw [writePlaceholder_of_ne_null hv' hne]
    exact ArgumentFormat.write_eq_error_iff.mpr hrejects

theorem writeRun_eq_ok_iff {r : Segment} :
    writeRun (writePlaceholder l arguments) r = .ok t ↔ Shows l arguments r t := by
  constructor
  · intro h
    cases r with
    | text =>
      cases h
      exact .text t
    | item q =>
      rw [writeRun, writePlaceholder] at h
      split at h
      case h_1 hv =>
        cases h
        exact .absent hv
      case h_2 hv =>
        cases h
        exact .null hv
      case h_3 v hne hv => exact .value hv hne h
  · intro h
    cases h with
    | text => rfl
    | absent h => rw [writeRun, writePlaceholder, h]
    | null h => rw [writeRun, writePlaceholder, h]
    | value h hv ht => rw [writeRun, writePlaceholder_of_ne_null h hv, ht]

theorem write_eq : p.write arguments =
    (p.segments.mapM (writeRun (writePlaceholder p.locale arguments))).map String.join :=
  write_runs (g := writeSegments p.locale arguments) rfl (fun _ _ => rfl) (fun _ _ => rfl) p.segments

theorem write_eq_error_iff :
    p.write (some vs) = .error e ↔ FailsFirst (Misfits vs) p.placeholders e := by
  rw [write_eq, map_join_eq_error_iff]
  exact failsFirst_congr (fun _ _ => writePlaceholder_eq_error_iff) _ _

theorem write_eq_ok_iff : p.write arguments = .ok t ↔
    ∃ parts, List.Forall₂ (Shows p.locale arguments) p.segments parts ∧ t = String.join parts := by
  rw [write_eq, map_join_eq_ok_iff]
  simp only [writeRun_eq_ok_iff]

theorem write_none (p : MessagePattern) : ∃ t, p.write none = .ok t := by
  cases h : p.write none with
  | ok t => exact ⟨t, rfl⟩
  | error e =>
    rw [write_eq, map_join_eq_error_iff] at h
    obtain ⟨before, q, after, -, -, hq⟩ := h
    cases hq

theorem exists_misfits_iff : (∃ e, Misfits vs q e) ↔
    ∃ v, vs[q.index]? = some v ∧ v ≠ .null ∧ ¬q.format.Fits v := by
  simp only [← ArgumentFormat.exists_rejects_iff]
  constructor
  · rintro ⟨e, v, hv, hne, h⟩
    exact ⟨v, hv, hne, e, h⟩
  · rintro ⟨v, hv, hne, e, h⟩
    exact ⟨e, v, hv, hne, h⟩

theorem write_fails_iff_misfit (p : MessagePattern) :
    (∃ t, p.write none = .ok t) ∧
    (∀ vs, (∃ e, p.write (some vs) = .error e) ↔
      ∃ q ∈ p.placeholders, ∃ v, vs[q.index]? = some v ∧ v ≠ .null ∧ ¬q.format.Fits v) ∧
    (∀ vs e, p.write (some vs) = .error e ↔ FailsFirst (Misfits vs) p.placeholders e) ∧
    (∀ arguments t, p.write arguments = .ok t ↔
      ∃ parts, List.Forall₂ (Shows p.locale arguments) p.segments parts ∧ t = String.join parts) ∧
    (∀ v l, ∃ t, ArgumentFormat.untyped.write l v = .ok t) ∧
    (∀ style l, (∀ n, ∃ t, (ArgumentFormat.number style).write l (.integer n) = .ok t) ∧
      ∀ x, ∃ t, (ArgumentFormat.number style).write l (.double x) = .ok t) ∧
    (∀ c l, (∀ n, ∃ t, (ArgumentFormat.choice c).write l (.integer n) = .ok t) ∧
      ∀ x, ∃ t, (ArgumentFormat.choice c).write l (.double x) = .ok t) := by
  refine ⟨write_none p, ?_, fun _ _ => write_eq_error_iff, fun _ _ => write_eq_ok_iff,
    fun v l => ⟨v.write l, rfl⟩, fun _ _ => ⟨fun _ => ⟨_, rfl⟩, fun _ => ⟨_, rfl⟩⟩,
    fun _ _ => ⟨fun _ => ⟨_, rfl⟩, fun _ => ⟨_, rfl⟩⟩⟩
  intro vs
  simp only [write_eq_error_iff, exists_failsFirst_iff, exists_misfits_iff]

end MessagePattern

end MessageCatalog
