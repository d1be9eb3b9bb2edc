import Cosaci.Webhook.Translate

/-!
# Templates

A template is literal text and placeholders in turn, and every text is one in exactly one
way.  `resolve_template`, which looks for the next braces again and again, copies the text
and puts one value in the place of each placeholder; the values are not looked at again.
-/

namespace Cosaci.Webhook

open Foundation

/-- A template cut at its placeholders.  Text goes on until two braces open, and a
placeholder until two braces close, whichever way they came there. -/
inductive Template where
  | text (literal : List Char) (plain : ¬openBraces <:+: literal)
  | unterminated (literal rest : List Char) (plain : FirstAfter openBraces literal)
      (opened : ¬closeBraces <:+: rest)
  | placeholder (literal inner : List Char) (plain : FirstAfter openBraces literal)
      (closed : FirstAfter closeBraces inner) (next : Template)

namespace Template

/-- The text of a template. -/
def source : Template → List Char
  | text literal _ => literal
  | unterminated literal rest _ _ => literal ++ openBraces ++ rest
  | placeholder literal inner _ _ next =>
      literal ++ openBraces ++ (inner ++ closeBraces ++ next.source)

/-- Every placeholder replaced by its value, and the rest copied; the first placeholder
without a value is the error, which shows the template as it was given. -/
def substitute (json : JsonReader) (event : JsonValue) (given : List Char) :
    Template → Except TranslateError (List Char)
  | text literal _ => .ok literal
  | unterminated _ _ _ _ => .error (.placeholderUnresolved given
      ("(unterminated `".toList ++ openBraces ++ "`)".toList))
  | placeholder literal inner _ _ next => do
      let value ← resolveInner json (trim inner) given event
      let rest ← next.substitute json event given
      return literal ++ value ++ rest

theorem openBraces_ne_nil : openBraces ≠ [] := by decide

theorem closeBraces_ne_nil : closeBraces ≠ [] := by decide

/-- Cut a text at its placeholders. -/
def parse (given : List Char) : Template :=
  match opened : splitFirst openBraces given with
  | none => .text given (splitFirst_eq_none_iff.mp opened)
  | some (literal, afterOpen) =>
      have plain := ((splitFirst_eq_some_iff openBraces_ne_nil).mp opened).2
      match closed : splitFirst closeBraces afterOpen with
      | none => .unterminated literal afterOpen plain (splitFirst_eq_none_iff.mp closed)
      | some (inner, after) =>
          .placeholder literal inner plain
            ((splitFirst_eq_some_iff closeBraces_ne_nil).mp closed).2 (parse after)
termination_by given.length
decreasing_by
  rw [splitFirst_eq_some opened, splitFirst_eq_some closed]
  simp only [List.length_append, openBraces, closeBraces, List.length_cons, List.length_nil]
  omega

/-! ## Texts and templates -/

theorem splitFirst_open {literal : List Char} (plain : FirstAfter openBraces literal)
    (rest : List Char) :
    splitFirst openBraces (literal ++ openBraces ++ rest) = some (literal, rest) :=
  (splitFirst_eq_some_iff openBraces_ne_nil).mpr ⟨rfl, plain⟩

theorem splitFirst_close {inner : List Char} (closed : FirstAfter closeBraces inner)
    (rest : List Char) :
    splitFirst closeBraces (inner ++ closeBraces ++ rest) = some (inner, rest) :=
  (splitFirst_eq_some_iff closeBraces_ne_nil).mpr ⟨rfl, closed⟩

theorem source_parse (given : List Char) : (parse given).source = given := by
  fun_induction parse given with
  | case1 given opened => rfl
  | case2 given literal afterOpen opened plain closed => exact (splitFirst_eq_some opened).symm
  | case3 given literal afterOpen opened plain inner after closed ih =>
      rw [source, ih, ← splitFirst_eq_some closed, ← splitFirst_eq_some opened]

/-- What the search for opening braces finds tells the kinds of templates apart. -/
theorem splitFirst_source (template : Template) :
    splitFirst openBraces template.source = match template with
      | text _ _ => none
      | unterminated literal rest _ _ => some (literal, rest)
      | placeholder literal inner _ _ next =>
          some (literal, inner ++ closeBraces ++ next.source) := by
  cases template with
  | text literal plain => exact splitFirst_eq_none_iff.mpr plain
  | unterminated literal rest plain opened => exact splitFirst_open plain rest
  | placeholder literal inner plain closed next => exact splitFirst_open plain _

theorem source_injective : Function.Injective source := by
  intro first second same
  have found := congrArg (splitFirst openBraces) same
  rw [splitFirst_source, splitFirst_source] at found
  induction first generalizing second with
  | text literal plain =>
      cases second with
      | text literal' plain' =>
          cases same
          rfl
      | unterminated literal' rest' plain' opened' => cases found
      | placeholder literal' inner' plain' closed' next' => cases found
  | unterminated literal rest plain opened =>
      cases second with
      | text literal' plain' => cases found
      | unterminated literal' rest' plain' opened' =>
          cases found
          rfl
      | placeholder literal' inner' plain' closed' next' =>
          cases found
          exact absurd ⟨inner', next'.source, rfl⟩ opened
  | placeholder literal inner plain closed next ih =>
      cases second with
      | text literal' plain' => cases found
      | unterminated literal' rest' plain' opened' =>
          cases found
          exact absurd ⟨inner, next.source, rfl⟩ opened'
      | placeholder literal' inner' plain' closed' next' =>
          simp only [Option.some.injEq, Prod.mk.injEq] at found
          obtain ⟨rfl, behind⟩ := found
          have inside := splitFirst_close closed next.source
          rw [behind, splitFirst_close closed', Option.some.injEq, Prod.mk.injEq] at inside
          obtain ⟨rfl, rest⟩ := inside
          have later := congrArg (splitFirst openBraces) rest.symm
          rw [splitFirst_source, splitFirst_source] at later
          rw [ih rest.symm later]

theorem parse_source (template : Template) : parse template.source = template :=
  source_injective (source_parse template.source)

/-- Every text is a template in exactly one way. -/
theorem existsUnique_source (given : List Char) :
    ∃! template : Template, template.source = given :=
  ⟨parse given, source_parse given, fun template same => same ▸ (parse_source template).symm⟩

end Template

/-! ## The search loop -/

open Template

/-- One round: the next placeholder is cut out, and the loop goes on behind it. -/
theorem resolveRounds_eq (json : JsonReader) (event : JsonValue) (given out rest : List Char) :
    resolveRounds json given event out rest =
      match splitFirst openBraces rest with
      | none => .ok (out ++ rest)
      | some (literal, afterOpen) =>
          match splitFirst closeBraces afterOpen with
          | none => .error (.placeholderUnresolved given
              ("(unterminated `".toList ++ openBraces ++ "`)".toList))
          | some (inner, after) =>
              (resolveInner json (trim inner) given event).bind fun value =>
                resolveRounds json given event (out ++ literal ++ value) after := by
  rw [resolveRounds]
  split
  · next opened => rw [opened]
  · next literal afterOpen opened =>
      rw [opened]
      dsimp only
      split
      · next closed => rw [closed]
      · next inner after closed =>
          rw [closed]
          dsimp only
          cases resolveInner json (trim inner) given event with
          | error error => rfl
          | ok value => rfl

/-- The loop puts what it still has to do behind what it has done. -/
theorem resolveRounds_source (json : JsonReader) (event : JsonValue) (given out : List Char)
    (template : Template) :
    resolveRounds json given event out template.source =
      (template.substitute json event given).map fun rest => out ++ rest := by
  induction template generalizing out with
  | text literal plain =>
      rw [resolveRounds_eq, splitFirst_source]
      rfl
  | unterminated literal rest plain opened =>
      rw [resolveRounds_eq, splitFirst_source]
      dsimp only
      rw [splitFirst_eq_none_iff.mpr opened]
      rfl
  | placeholder literal inner plain closed next ih =>
      rw [resolveRounds_eq, splitFirst_source]
      dsimp only
      rw [splitFirst_close closed, substitute]
      dsimp only
      cases resolveInner json (trim inner) given event with
      | error error => rfl
      | ok value =>
          change resolveRounds json given event (out ++ literal ++ value) next.source = _
          rw [ih]
          cases next.substitute json event given with
          | error error => rfl
          | ok rest =>
              change Except.ok (out ++ literal ++ value ++ rest) =
                Except.ok (out ++ (literal ++ value ++ rest))
              simp only [List.append_assoc]

/-- Resolving a template is replacing its placeholders. -/
theorem resolveTemplate_source (json : JsonReader) (event : JsonValue) (template : Template) :
    resolveTemplate json template.source event =
      template.substitute json event template.source := by
  rw [resolveTemplate, resolveRounds_source]
  cases template.substitute json event template.source with
  | error error => rfl
  | ok out => rfl

/-! ## Templates one after the other -/

variable {event : JsonValue} {json : JsonReader}

/-- The value of a placeholder does not depend on the template around it. -/
theorem resolveInner_ok {inner given value : List Char}
    (resolved : resolveInner json inner given event = .ok value) (other : List Char) :
    resolveInner json inner other event = .ok value := by
  revert resolved
  unfold resolveInner
  cases stripFront "event.".toList inner with
  | none => exact nofun
  | some path =>
      dsimp only
      cases walkPath event path with
      | none => exact nofun
      | some leaf =>
          cases leaf with
          | string text => exact id
          | number literal => exact id
          | bool truth =>
              cases truth with
              | true => exact id
              | false => exact id
          | null => exact nofun
          | array items => exact nofun
          | object members => exact nofun

/-- A resolved placeholder, its value and what follows. -/
theorem substitute_placeholder_ok {given literal inner out : List Char}
    {plain : FirstAfter openBraces literal} {closed : FirstAfter closeBraces inner}
    {next : Template} :
    (placeholder literal inner plain closed next).substitute json event given = .ok out ↔
      ∃ value rest, resolveInner json (trim inner) given event = .ok value ∧
        next.substitute json event given = .ok rest ∧ out = literal ++ value ++ rest := by
  rw [substitute]
  cases resolveInner json (trim inner) given event with
  | error error => exact ⟨nofun, nofun⟩
  | ok value =>
      cases next.substitute json event given with
      | error error => exact ⟨nofun, nofun⟩
      | ok rest =>
          constructor
          · intro resolved
            exact ⟨value, rest, rfl, rfl, (Except.ok.inj resolved).symm⟩
          · rintro ⟨_, _, same, same', rfl⟩
            cases same
            cases same'
            rfl

theorem substitute_ok {given out : List Char} {template : Template}
    (resolved : template.substitute json event given = .ok out) (other : List Char) :
    template.substitute json event other = .ok out := by
  induction template generalizing out with
  | text literal plain => exact resolved
  | unterminated literal rest plain opened => cases resolved
  | placeholder literal inner plain closed next ih =>
      obtain ⟨value, rest, found, later, rfl⟩ := substitute_placeholder_ok.mp resolved
      exact substitute_placeholder_ok.mpr ⟨value, rest, resolveInner_ok found other, ih later, rfl⟩

/-- Text in front of a template, if the two do not open a placeholder together. -/
theorem exists_substitute_text_append {given literal out : List Char}
    (plain : ¬openBraces <:+: literal) {second : Template}
    (apart : literal.getLast? ≠ some '\x7b' ∨ second.source.head? ≠ some '\x7b')
    (resolved : second.substitute json event given = .ok out) :
    ∃ joined : Template, joined.source = literal ++ second.source ∧
      joined.substitute json event given = .ok (literal ++ out) := by
  have meets : ∀ text, text.head? = second.source.head? → ¬openBraces <:+: text →
      ¬openBraces <:+: literal ++ text := by
    intro text same absent inside
    rcases pair_infix_append_iff.mp inside with here | there | ⟨ends, begins⟩
    · exact plain here
    · exact absent there
    · rw [← same] at apart
      exact apart.elim (fun other => other ends) (fun other => other begins)
  cases second with
  | text literal' plain' =>
      cases resolved
      exact ⟨.text (literal ++ out) (meets out rfl plain'), rfl, rfl⟩
  | unterminated literal' rest plain' opened => cases resolved
  | placeholder literal' inner plain' closed next =>
      obtain ⟨value, rest, found, later, rfl⟩ := substitute_placeholder_ok.mp resolved
      have joined : FirstAfter openBraces (literal ++ literal') := by
        rw [FirstAfter, List.append_assoc]
        refine meets _ ?_ plain'
        cases literal' <;> rfl
      refine ⟨.placeholder (literal ++ literal') inner joined closed next, ?_, ?_⟩
      · simp only [source, List.append_assoc]
      · refine substitute_placeholder_ok.mpr ⟨value, rest, found, later, ?_⟩
        simp only [List.append_assoc]

theorem exists_substitute_append {given a b : List Char} {first second : Template}
    (apart : first.source.getLast? ≠ some '\x7b' ∨ second.source.head? ≠ some '\x7b')
    (resolved : first.substitute json event given = .ok a)
    (resolved' : second.substitute json event given = .ok b) :
    ∃ joined : Template, joined.source = first.source ++ second.source ∧
      joined.substitute json event given = .ok (a ++ b) := by
  induction first generalizing a with
  | text literal plain =>
      cases resolved
      exact exists_substitute_text_append plain apart resolved'
  | unterminated literal rest plain opened => cases resolved
  | placeholder literal inner plain closed next ih =>
      obtain ⟨value, rest, found, later, rfl⟩ := substitute_placeholder_ok.mp resolved
      have apart : next.source.getLast? ≠ some '\x7b' ∨ second.source.head? ≠ some '\x7b' := by
        refine apart.imp_left fun other ends => other ?_
        rw [source, ← List.append_assoc, List.getLast?_append, ends]
        rfl
      obtain ⟨joined, whole, substituted⟩ := ih apart later
      refine ⟨.placeholder literal inner plain closed joined, ?_, ?_⟩
      · rw [source, source, whole]
        simp only [List.append_assoc]
      · refine substitute_placeholder_ok.mpr ⟨value, rest ++ b, found, substituted, ?_⟩
        simp only [List.append_assoc]

/-- Every text is a template in one way; resolving it replaces each of its placeholders by
a value and copies everything else; and templates that do not open a placeholder together
are resolved one after the other. -/
theorem resolveTemplate_single_pass (json : JsonReader) (event : JsonValue) :
    (∀ given : List Char, ∃! template : Template, template.source = given) ∧
      (∀ template : Template, resolveTemplate json template.source event =
        template.substitute json event template.source) ∧
      ∀ first second a b : List Char,
        first.getLast? ≠ some '\x7b' ∨ second.head? ≠ some '\x7b' →
        resolveTemplate json first event = .ok a → resolveTemplate json second event = .ok b →
        resolveTemplate json (first ++ second) event = .ok (a ++ b) := by
  refine ⟨existsUnique_source, resolveTemplate_source json event, ?_⟩
  intro first second a b apart resolved resolved'
  obtain ⟨first, rfl, -⟩ := existsUnique_source first
  obtain ⟨second, rfl, -⟩ := existsUnique_source second
  rw [resolveTemplate_source] at resolved resolved'
  obtain ⟨joined, whole, substituted⟩ := exists_substitute_append apart
    (substitute_ok resolved []) (substitute_ok resolved' [])
  rw [← whole, resolveTemplate_source]
  exact substitute_ok substituted joined.source

/-- An event with one string. -/
def fieldEvent (value : List Char) : JsonValue :=
  .object [(['x'], .string value)]

/-- A text that ends with a placeholder for that string. -/
def fieldTemplate (literal : List Char) (plain : FirstAfter openBraces literal) : Template :=
  .placeholder literal " event.x ".toList plain (by decide) (.text [] (by decide))

/-- The opening braces that a value brings along do not open anything. -/
theorem resolveTemplate_single_pass_braces :
    (fieldTemplate ['a'] (by decide)).source = "a\x7b\x7b event.x \x7d\x7d".toList ∧
      resolveTemplate flatReader ((fieldTemplate ['a'] (by decide)).source ++
        (fieldTemplate ['\x7d'] (by decide)).source) (fieldEvent openBraces) =
          .ok "a\x7b\x7b\x7d\x7b\x7b".toList := by
  refine ⟨by decide, ?_⟩
  refine (resolveTemplate_single_pass flatReader (fieldEvent openBraces)).2.2 _ _
    "a\x7b\x7b".toList "\x7d\x7b\x7b".toList (Or.inl (by decide)) ?_ ?_
  · rw [resolveTemplate_source]
    decide
  · rw [resolveTemplate_source]
    decide

end Cosaci.Webhook
