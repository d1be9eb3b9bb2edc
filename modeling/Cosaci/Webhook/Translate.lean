import Cosaci.Foundation.JsonTree
import Cosaci.Foundation.TextSearch
import Cosaci.State.RateLimit

/-!
# From webhook events to pipelines

`manifest.rs` and `translate.rs`: the pipelines of a manifest that a webhook event
triggers, with the placeholders of their steps replaced by values from the event.
-/

namespace Cosaci.Webhook

open Foundation
open State (TenantId)

/-! ## Manifests -/

structure TenantSection where
  id : TenantId
  deriving DecidableEq

inductive StepSection where
  | sourceFetch (url reference : List Char)
  | execWasm (modulePath argsCborHex : List Char)
  deriving DecidableEq

structure PipelineSection where
  name : List Char
  onEvents : List (List Char)
  steps : List StepSection
  deriving DecidableEq

structure CosaciToml where
  tenant : TenantSection
  pipelines : List PipelineSection
  deriving DecidableEq

/-! ## Translation -/

inductive TranslateError where
  | placeholderUnresolved (template path : List Char)
  | unsupportedNamespace (inner : List Char)
  | placeholderInLiteralField (stepKind field : List Char)
  deriving DecidableEq

/-- The text of an error. -/
def TranslateError.display : TranslateError → List Char
  | .placeholderUnresolved template path =>
      "placeholder ".toList ++ template ++ " unresolved (path=".toList ++ path ++ ")".toList
  | .unsupportedNamespace inner => "unsupported template namespace: ".toList ++ inner
  | .placeholderInLiteralField stepKind field =>
      "placeholder in literal-only field ".toList ++ stepKind ++ ".".toList ++ field

inductive ResolvedStep where
  | sourceFetch (url reference : List Char)
  | execWasm (modulePath argsCborHex : List Char)
  deriving DecidableEq

structure ResolvedPipeline where
  name : List Char
  steps : List ResolvedStep
  deriving DecidableEq

/-- The two characters that open a placeholder. -/
def openBraces : List Char := ['\x7b', '\x7b']

/-- The two characters that close a placeholder. -/
def closeBraces : List Char := ['\x7d', '\x7d']

def walkPath (root : JsonValue) (path : List Char) : Option JsonValue :=
  root.walk (path.splitOn '.')

def resolveInner (json : JsonReader) (inner template : List Char) (event : JsonValue) :
    Except TranslateError (List Char) :=
  match stripFront "event.".toList inner with
  | none => .error (.unsupportedNamespace inner)
  | some path =>
      match walkPath event path with
      | none => .error (.placeholderUnresolved template path)
      | some (.string text) => .ok text
      | some (.number literal) => .ok (json.showNumber literal)
      | some (.bool true) => .ok "true".toList
      | some (.bool false) => .ok "false".toList
      | some _ => .error (.placeholderUnresolved template (path ++ " (non-scalar)".toList))

/-- The loop of `resolve_template`, with the text resolved so far and the text that is
left. -/
def resolveRounds (json : JsonReader) (template : List Char) (event : JsonValue)
    (out rest : List Char) : Except TranslateError (List Char) :=
  match _opened : splitFirst openBraces rest with
  | none => .ok (out ++ rest)
  | some (before, afterOpen) =>
      match _closed : splitFirst closeBraces afterOpen with
      | none => .error (.placeholderUnresolved template
          ("(unterminated `".toList ++ openBraces ++ "`)".toList))
      | some (inner, after) =>
          match resolveInner json (trim inner) template event with
          | .error error => .error error
          | .ok resolved => resolveRounds json template event (out ++ before ++ resolved) after
termination_by rest.length
decreasing_by
  rw [splitFirst_eq_some _opened, splitFirst_eq_some _closed]
  simp only [List.length_append, openBraces, closeBraces, List.length_cons, List.length_nil]
  omega

def resolveTemplate (json : JsonReader) (template : List Char) (event : JsonValue) :
    Except TranslateError (List Char) :=
  resolveRounds json template event [] template

def hasPlaceholder (text : List Char) : Bool :=
  containsText openBraces text

def resolveStep (json : JsonReader) (step : StepSection) (event : JsonValue) :
    Except TranslateError ResolvedStep :=
  match step with
  | .sourceFetch url reference => do
      let url ← resolveTemplate json url event
      let reference ← resolveTemplate json reference event
      return .sourceFetch url reference
  | .execWasm modulePath argsCborHex =>
      if hasPlaceholder modulePath then
        .error (.placeholderInLiteralField "exec-wasm".toList "module_path".toList)
      else if hasPlaceholder argsCborHex then
        .error (.placeholderInLiteralField "exec-wasm".toList "args_cbor_hex".toList)
      else
        .ok (.execWasm modulePath argsCborHex)

def resolvePipeline (json : JsonReader) (pipeline : PipelineSection) (event : JsonValue) :
    Except TranslateError ResolvedPipeline := do
  let steps ← pipeline.steps.mapM fun step => resolveStep json step event
  return ⟨pipeline.name, steps⟩

def pipelineMatches (pipeline : PipelineSection) (eventName : List Char) : Bool :=
  pipeline.onEvents.any fun event => event = eventName

/-- The triggered pipelines, resolved; the first failure ends the translation. -/
def translate (json : JsonReader) (manifest : CosaciToml) (eventName : List Char)
    (event : JsonValue) : Except TranslateError (List ResolvedPipeline) :=
  (manifest.pipelines.filter fun pipeline => pipelineMatches pipeline eventName).mapM
    fun pipeline => resolvePipeline json pipeline event

end Cosaci.Webhook
