import Cosaci.Foundation.Fallible
import Cosaci.Webhook.Template

/-!
# Placeholders in resolved steps

The values that replace placeholders come from outside and may hold braces themselves.  A
resolved field has the form of a placeholder somewhere exactly when a value brings the
first of the opening braces; the text of the manifest alone never does.
-/

namespace Cosaci.Webhook

open Foundation

/-- The strings of a resolved step. -/
def ResolvedStep.fields : ResolvedStep → List (List Char)
  | .sourceFetch url reference => [url, reference]
  | .execWasm modulePath argsCborHex => [modulePath, argsCborHex]

/-- The fields of a step in which placeholders are replaced. -/
def StepSection.templates : StepSection → List (List Char)
  | .sourceFetch url reference => [url, reference]
  | .execWasm _ _ => []

/-! ## Text of the form of a placeholder -/

/-- The text begins with opening braces that are closed later. -/
def BeginsPlaceholder (text : List Char) : Prop :=
  ∃ tail, text = openBraces ++ tail ∧ closeBraces <:+: tail

/-- Opening braces and, behind them, closing ones. -/
def CarriesPlaceholder (text : List Char) : Prop :=
  ∃ before inner after, text = before ++ openBraces ++ inner ++ closeBraces ++ after

/-- A brace of a value begins a placeholder, together with what follows. -/
def Opens (value rest : List Char) : Prop :=
  ∃ front back, value = front ++ '\x7b' :: back ∧ BeginsPlaceholder ('\x7b' :: back ++ rest)

theorem carriesPlaceholder_cons_iff {first : Char} {text : List Char} :
    CarriesPlaceholder (first :: text) ↔
      BeginsPlaceholder (first :: text) ∨ CarriesPlaceholder text := by
  constructor
  · rintro ⟨before, inner, after, whole⟩
    cases before with
    | nil =>
        refine Or.inl ⟨inner ++ closeBraces ++ after, ?_, inner, after, rfl⟩
        simpa only [List.nil_append, List.append_assoc] using whole
    | cons start before => exact Or.inr ⟨before, inner, after, (List.cons.inj whole).2⟩
  · rintro (⟨tail, whole, inner, after, rfl⟩ | ⟨before, inner, after, rfl⟩)
    · refine ⟨[], inner, after, ?_⟩
      simpa only [List.nil_append, List.append_assoc] using whole
    · exact ⟨first :: before, inner, after, rfl⟩

theorem not_carriesPlaceholder_of_plain {text : List Char} (plain : ¬openBraces <:+: text) :
    ¬CarriesPlaceholder text := by
  rintro ⟨before, inner, after, rfl⟩
  apply plain
  exact ⟨before, inner ++ closeBraces ++ after, by simp only [List.append_assoc]⟩

variable {value rest : List Char}

theorem opens_cons_iff {first : Char} :
    Opens (first :: value) rest ↔
      BeginsPlaceholder (first :: value ++ rest) ∨ Opens value rest := by
  constructor
  · rintro ⟨front, back, whole, begins⟩
    cases front with
    | nil =>
        rw [whole]
        exact Or.inl begins
    | cons start front => exact Or.inr ⟨front, back, (List.cons.inj whole).2, begins⟩
  · rintro (begins | ⟨front, back, rfl, begins⟩)
    · obtain ⟨tail, whole, -⟩ := id begins
      obtain rfl : first = '\x7b' := (List.cons.inj whole).1
      exact ⟨[], value, rfl, begins⟩
    · exact ⟨first :: front, back, rfl, begins⟩

/-- A placeholder in two texts begins in one of them. -/
theorem carriesPlaceholder_append_iff :
    CarriesPlaceholder (value ++ rest) ↔ Opens value rest ∨ CarriesPlaceholder rest := by
  induction value with
  | nil =>
      have none : ¬Opens [] rest := by
        rintro ⟨front, back, whole, -⟩
        cases front <;> cases whole
      exact (or_iff_right none).symm
  | cons first value ih =>
      rw [List.cons_append, carriesPlaceholder_cons_iff, ih, opens_cons_iff, or_assoc,
        List.cons_append]

/-- Text in front of a placeholder begins none with what follows. -/
theorem not_opens_of_firstAfter {literal rest : List Char}
    (plain : FirstAfter openBraces literal) : ¬Opens literal rest := by
  rintro ⟨front, back, rfl, tail, whole, -⟩
  have second := (List.cons.inj whole).2
  apply plain
  cases back with
  | nil => exact ⟨front, [], by simp [openBraces]⟩
  | cons next back =>
      obtain rfl : next = '\x7b' := (List.cons.inj second).1
      exact ⟨front, back ++ openBraces.dropLast, by simp [openBraces]⟩

/-- A value without opening braces begins no placeholder. -/
theorem not_opens_of_notMem (absent : '\x7b' ∉ value) : ¬Opens value rest := by
  rintro ⟨front, back, rfl, -⟩
  exact absent (List.mem_append_right front List.mem_cons_self)

/-! ## Resolved templates -/

namespace Template

/-- Some value of the template begins a placeholder in the resolved text. -/
def Reopens (json : JsonReader) (event : JsonValue) (given : List Char) : Template → Prop
  | text _ _ => False
  | unterminated _ _ _ _ => False
  | placeholder _ inner _ _ next =>
      (∃ value rest, resolveInner json (trim inner) given event = .ok value ∧
        next.substitute json event given = .ok rest ∧ Opens value rest) ∨
      next.Reopens json event given

/-- The value replaces some placeholder of the template. -/
def Inserts (json : JsonReader) (event : JsonValue) (given value : List Char) : Template → Prop
  | text _ _ => False
  | unterminated _ _ _ _ => False
  | placeholder _ inner _ _ next =>
      resolveInner json (trim inner) given event = .ok value ∨
        next.Inserts json event given value

variable {json : JsonReader} {event : JsonValue} {given : List Char}

theorem not_reopens_of_notMem {template : Template}
    (absent : ∀ value, template.Inserts json event given value → '\x7b' ∉ value) :
    ¬template.Reopens json event given := by
  induction template with
  | text literal plain => exact id
  | unterminated literal rest plain opened => exact id
  | placeholder literal inner plain closed next ih =>
      rintro (⟨value, rest, found, -, opens⟩ | later)
      · exact not_opens_of_notMem (absent value (Or.inl found)) opens
      · exact ih (fun value inserted => absent value (Or.inr inserted)) later

/-- Induction on the template: each placeholder adds the ones that its value begins. -/
theorem carriesPlaceholder_iff_reopens {template : Template} {out : List Char}
    (resolved : template.substitute json event given = .ok out) :
    CarriesPlaceholder out ↔ template.Reopens json event given := by
  induction template generalizing out with
  | text literal plain =>
      cases resolved
      exact iff_of_false (not_carriesPlaceholder_of_plain plain) id
  | unterminated literal rest plain opened => cases resolved
  | placeholder literal inner plain closed next ih =>
      obtain ⟨value, rest, found, later, rfl⟩ := substitute_placeholder_ok.mp resolved
      rw [List.append_assoc, carriesPlaceholder_append_iff,
        or_iff_right (not_opens_of_firstAfter plain), carriesPlaceholder_append_iff, ih later,
        Reopens]
      refine or_congr_left ⟨fun opens => ⟨value, rest, found, later, opens⟩, ?_⟩
      rintro ⟨value', rest', found', later', opens⟩
      cases found.symm.trans found'
      cases later.symm.trans later'
      exact opens

end Template

open Template

theorem carriesPlaceholder_resolveTemplate_iff {json : JsonReader} {event : JsonValue}
    {given out : List Char} (resolved : resolveTemplate json given event = .ok out) :
    CarriesPlaceholder out ↔ (parse given).Reopens json event given := by
  rw [← source_parse given, resolveTemplate_source, source_parse] at resolved
  exact carriesPlaceholder_iff_reopens resolved

/-! ## Resolved steps -/

theorem fields_resolveStep_iff {json : JsonReader} {event : JsonValue} {step : StepSection}
    {resolved : ResolvedStep} (success : resolveStep json step event = .ok resolved) :
    (∀ field ∈ resolved.fields, ¬CarriesPlaceholder field) ↔
      ∀ field ∈ step.templates, ¬(parse field).Reopens json event field := by
  cases step with
  | sourceFetch url reference =>
      obtain ⟨url', here, success⟩ := bind_eq_ok.mp success
      obtain ⟨reference', there, same⟩ := bind_eq_ok.mp success
      cases same
      simp only [ResolvedStep.fields, StepSection.templates, List.forall_mem_cons]
      rw [carriesPlaceholder_resolveTemplate_iff here,
        carriesPlaceholder_resolveTemplate_iff there]
      simp
  | execWasm modulePath argsCborHex =>
      -- Literal fields with opening braces have been refused.
      have literal : ∀ {text}, hasPlaceholder text = false → ¬CarriesPlaceholder text := by
        intro text absent
        apply not_carriesPlaceholder_of_plain
        rw [← containsText_iff]
        exact Bool.eq_false_iff.mp absent
      rw [resolveStep] at success
      split at success
      · cases success
      · next path =>
          split at success
          · cases success
          · next args =>
              cases success
              refine iff_of_true ?_ (by simp [StepSection.templates])
              simp only [ResolvedStep.fields, List.forall_mem_cons]
              exact ⟨literal (Bool.eq_false_iff.mpr path), literal (Bool.eq_false_iff.mpr args),
                by simp⟩

/-- The resolved steps of an event carry no placeholders exactly when no event value in a
triggered pipeline begins one, in particular when no inserted value has an opening brace. -/
theorem translate_placeholderFree_iff (json : JsonReader) (manifest : CosaciToml)
    (eventName : List Char) (event : JsonValue) (pipelines : List ResolvedPipeline)
    (translated : translate json manifest eventName event = .ok pipelines) :
    ((∀ pipeline ∈ pipelines, ∀ step ∈ pipeline.steps, ∀ field ∈ step.fields,
        ¬CarriesPlaceholder field) ↔
      ∀ pipeline ∈ manifest.pipelines, pipelineMatches pipeline eventName = true →
        ∀ step ∈ pipeline.steps, ∀ field ∈ step.templates,
          ¬(parse field).Reopens json event field) ∧
    ((∀ pipeline ∈ manifest.pipelines, pipelineMatches pipeline eventName = true →
        ∀ step ∈ pipeline.steps, ∀ field ∈ step.templates,
          ∀ value, (parse field).Inserts json event field value → '\x7b' ∉ value) →
      ∀ pipeline ∈ pipelines, ∀ step ∈ pipeline.steps, ∀ field ∈ step.fields,
        ¬CarriesPlaceholder field) := by
  have each : ∀ pipeline resolved, resolvePipeline json pipeline event = .ok resolved →
      ((∀ step ∈ resolved.steps, ∀ field ∈ step.fields, ¬CarriesPlaceholder field) ↔
        ∀ step ∈ pipeline.steps, ∀ field ∈ step.templates,
          ¬(parse field).Reopens json event field) := by
    intro pipeline resolved success
    obtain ⟨steps, mapped, same⟩ := bind_eq_ok.mp success
    cases same
    exact forall_mem_of_mapM mapped fun _ _ => fields_resolveStep_iff
  have exactly := forall_mem_of_mapM translated each
  simp only [List.mem_filter, and_imp] at exactly
  refine ⟨exactly, fun absent => exactly.mpr ?_⟩
  intro pipeline member triggered step here field given
  exact not_reopens_of_notMem (absent pipeline member triggered step here field given)

/-! ## A pipeline that fetches what the event names -/

/-- The whole text is one placeholder. -/
def fetchTemplate : Template :=
  fieldTemplate [] (by decide)

def fetchManifest : CosaciToml where
  tenant := ⟨1⟩
  pipelines := [⟨"build".toList, ["push".toList],
    [.sourceFetch fetchTemplate.source "main".toList]⟩]

theorem translate_fetchManifest (value : List Char) :
    translate flatReader fetchManifest "push".toList (fieldEvent value) =
      .ok [⟨"build".toList, [.sourceFetch value "main".toList]⟩] := by
  have url : resolveTemplate flatReader fetchTemplate.source (fieldEvent value) = .ok value := by
    rw [resolveTemplate_source]
    exact congrArg Except.ok (List.append_nil value)
  have reference : resolveTemplate flatReader "main".toList (fieldEvent value) =
      .ok "main".toList :=
    resolveTemplate_source flatReader (fieldEvent value) (.text "main".toList (by decide))
  have triggered : (fetchManifest.pipelines.filter fun pipeline =>
      pipelineMatches pipeline "push".toList) = fetchManifest.pipelines := by
    decide
  rw [translate, triggered, fetchManifest, List.mapM_cons, List.mapM_nil, resolvePipeline,
    List.mapM_cons, List.mapM_nil, resolveStep, url, reference]
  rfl

/-- A value without opening braces. -/
theorem translate_placeholderFree_iff_plain :
    translate flatReader fetchManifest "push".toList (fieldEvent "a\x7d\x7d".toList) =
        .ok [⟨"build".toList, [.sourceFetch "a\x7d\x7d".toList "main".toList]⟩] ∧
      ∀ pipeline ∈ [(⟨"build".toList,
          [.sourceFetch "a\x7d\x7d".toList "main".toList]⟩ : ResolvedPipeline)],
        ∀ step ∈ pipeline.steps, ∀ field ∈ step.fields, ¬CarriesPlaceholder field := by
  refine ⟨translate_fetchManifest _, ?_⟩
  refine (translate_placeholderFree_iff flatReader fetchManifest "push".toList
    (fieldEvent "a\x7d\x7d".toList) _ (translate_fetchManifest _)).2 ?_
  have reference : parse "main".toList = .text "main".toList (by decide) :=
    parse_source (.text "main".toList (by decide))
  simp only [fetchManifest, List.forall_mem_singleton, StepSection.templates,
    List.forall_mem_cons, parse_source, reference]
  intro _
  refine ⟨?_, fun _ later => later.elim⟩
  rintro value (found | later)
  · cases found
    decide
  · exact later.elim

/-- The sender of the event has the fetched address look like a placeholder. -/
theorem translate_carries_placeholder :
    translate flatReader fetchManifest "push".toList
          (fieldEvent "\x7b\x7b env.TOKEN \x7d\x7d".toList) =
        .ok [⟨"build".toList,
          [.sourceFetch "\x7b\x7b env.TOKEN \x7d\x7d".toList "main".toList]⟩] ∧
      CarriesPlaceholder "\x7b\x7b env.TOKEN \x7d\x7d".toList := by
  refine ⟨translate_fetchManifest _, [], " env.TOKEN ".toList, [], ?_⟩
  decide

end Cosaci.Webhook
