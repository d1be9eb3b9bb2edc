import Cosaci.State.SubmissionAuth
import Cosaci.Webhook.Translate

/-!
# The webhook listener

`signature.rs` and the listener binary: a delivery is authenticated, translated into
the payloads of the pipelines it triggers, and each payload is signed and printed as
one line for the coordinator.
-/

namespace Cosaci.Webhook

open Foundation
open Cosaci.Core (Keypair)
open State (JobSubmissionPayload canonicalBytes)

/-- The libraries that the listener relies on. -/
structure Libraries where
  json : JsonReader
  /-- HMAC-SHA-256 of a message under a key. -/
  hmac : List UInt8 → List UInt8 → Bytes 32
  /-- The CBOR reader for a pair of 32-bit integers. -/
  decodeArgs : List UInt8 → Option (Int32 × Int32)

/-! ## Authentication of deliveries -/

inductive SignatureError where
  | malformed
  | badSignature
  | stale
  deriving DecidableEq, Repr

/-- A digit of either case. -/
def hexNibble (b : UInt8) : Option UInt8 :=
  if '0'.toUInt8 ≤ b ∧ b ≤ '9'.toUInt8 then some (b - '0'.toUInt8)
  else if 'a'.toUInt8 ≤ b ∧ b ≤ 'f'.toUInt8 then some (b - 'a'.toUInt8 + 10)
  else if 'A'.toUInt8 ≤ b ∧ b ≤ 'F'.toUInt8 then some (b - 'A'.toUInt8 + 10)
  else none

/-- The bytes written by pairs of digits. -/
def hexPairs : List UInt8 → Option (List UInt8)
  | hi :: lo :: rest => do
      let hi ← hexNibble hi
      let lo ← hexNibble lo
      let bytes ← hexPairs rest
      return ((hi <<< 4) ||| lo) :: bytes
  | _ => some []

def hexToBytes (s : List Char) : Option (List UInt8) :=
  let bytes := utf8 s
  if bytes.length % 2 ≠ 0 then none else hexPairs bytes

def parseHex32 (s : List Char) : Option (Bytes 32) :=
  let bytes := utf8 s
  if bytes.length ≠ 64 then none
  else (hexPairs bytes).bind fun out =>
    if full : out.length = 32 then some (ofBytes out full) else none

def verifyGithubSignature (libraries : Libraries) (body : List UInt8) (headerValue : List Char)
    (secret : List UInt8) : Except SignatureError Unit :=
  match (stripFront "sha256=".toList headerValue).bind parseHex32 with
  | none => .error .malformed
  | some provided =>
      if provided = libraries.hmac secret body then .ok () else .error .badSignature

def constantTimeEq (a b : List UInt8) : Bool :=
  if a.length ≠ b.length then false
  else (a.zip b).foldl (fun acc pair => acc ||| (pair.1 ^^^ pair.2)) 0 == 0

def verifyGitlabToken (headerValue expectedToken : List Char) : Except SignatureError Unit :=
  if headerValue.isEmpty || expectedToken.isEmpty then .error .malformed
  else if constantTimeEq (utf8 headerValue) (utf8 expectedToken) then .ok ()
  else .error .badSignature

/-! ## Payloads -/

inductive HandleError where
  | badSignature
  | badRequest (reason : List Char)
  | internal (reason : List Char)
  deriving DecidableEq

/-- The composed name of an event, which pipelines are matched with. -/
def composeEventName (kind : List Char) (body : JsonValue) : List Char :=
  match (body.get "action".toList).bind JsonValue.asStr with
  | some action => kind ++ '.' :: action
  | none =>
      match (body.get "object_kind".toList).bind JsonValue.asStr with
      | some objectKind => if objectKind ≠ kind then kind ++ '.' :: objectKind else kind
      | none => kind

/-- The fields that a nonce is taken from, in order of preference. -/
def fieldPaths : List (List Char) :=
  ["head_commit.id".toList, "pull_request.head.sha".toList, "checkout_sha".toList, "id".toList]

/-- The text of the first of these fields that is a string. -/
def seedText (event : JsonValue) : Option (List Char) :=
  fieldPaths.findSome? fun path => (event.walk (path.splitOn '.')).bind JsonValue.asStr

/-- The first sixteen bytes of a text as a number, padded with zeros. -/
def foldSeed (text : List Char) : BitVec 128 :=
  BitVec.ofNat 128 (ofLittleEndian ((utf8 text).take 16))

/-- The first nonce for an event; without any of the fields, the wall clock. -/
def nonceSeed (clockNanos : Nat) (event : JsonValue) : BitVec 128 :=
  match seedText event with
  | some text => foldSeed text
  | none => BitVec.ofNat 128 clockNanos

def decodeArgsCborHex (libraries : Libraries) (hex : List Char) : Option (Int32 × Int32) :=
  (hexToBytes hex).bind libraries.decodeArgs

/-- The canned module and its arguments that the first WASM step stands for. -/
def firstCannedArgs (libraries : Libraries) (pipeline : ResolvedPipeline) :
    Option (String × Int32 × Int32) :=
  pipeline.steps.findSome? fun step =>
    match step with
    | .execWasm modulePath argsCborHex =>
        let kind := if containsText "mul".toList modulePath then "mul" else "add"
        let args := (decodeArgsCborHex libraries argsCborHex).getD (0, 0)
        some (kind, args.1, args.2)
    | .sourceFetch _ _ => none

/-- The payload for the pipeline with the given position among the triggered ones. -/
def payloadOf (libraries : Libraries) (manifest : CosaciToml) (nonceBase : BitVec 128)
    (idx : Nat) (pipeline : ResolvedPipeline) : JobSubmissionPayload :=
  let (kind, a, b) := (firstCannedArgs libraries pipeline).getD ("add", 0, 0)
  { tenantId := manifest.tenant.id
    kind := kind
    a := a
    b := b
    deadlineSecs := 60
    nonce := nonceBase + BitVec.ofNat 128 idx }

def buildPayloads (libraries : Libraries) (clockNanos : Nat) (manifest : CosaciToml)
    (eventName : List Char) (event : JsonValue) :
    Except HandleError (List JobSubmissionPayload) :=
  match translate libraries.json manifest eventName event with
  | .error error => .error (.internal ("translate: ".toList ++ error.display))
  | .ok resolved =>
      .ok (resolved.mapIdx (payloadOf libraries manifest (nonceSeed clockNanos event)))

/-! ## Lines -/

def lowerHex (bytes : List UInt8) : List Char :=
  bytes.flatMap fun byte => [Nat.digitChar (byte.toNat / 16), Nat.digitChar (byte.toNat % 16)]

/-- A member name in quotation marks and the colon behind it. -/
def label (name : String) : List Char :=
  '"' :: (name.toList ++ ['"', ':'])

/-- Sign a payload and print it with the signature as one line. -/
def signAndSerialize (payload : JobSubmissionPayload) (keypair : Keypair) : List Char :=
  let signature := keypair.sign (canonicalBytes payload)
  ['\x7b'] ++ label "kind" ++ ['"'] ++ payload.kind.toList ++ ['"'] ++
    [','] ++ label "a" ++ Json.integer payload.a.toInt ++
    [','] ++ label "b" ++ Json.integer payload.b.toInt ++
    [','] ++ label "deadline_secs" ++ Json.integer payload.deadlineSecs.toNat ++
    [','] ++ label "tenant_id" ++ Json.integer payload.tenantId.toNat ++
    [','] ++ label "nonce" ++ Json.integer payload.nonce.toNat ++
    [','] ++ label "pubkey_hex" ++ ['"'] ++ lowerHex keypair.verifyingKey.toList ++ ['"'] ++
    [','] ++ label "signature_hex" ++ ['"'] ++ lowerHex signature.toList ++ ['"'] ++ ['\x7d']

/-! ## Requests -/

/-- How the listener is configured. -/
structure Listener where
  libraries : Libraries
  githubSecret : List UInt8
  gitlabToken : List Char
  manifest : CosaciToml
  tenantKeypair : Keypair

/-- A request; a body that cannot be read is missing. -/
structure Request where
  method : List Char
  url : List Char
  headers : List (List Char × List Char)
  body : Option (List UInt8)

structure Response where
  code : Nat
  body : List Char
  deriving DecidableEq

def eqIgnoreAsciiCase (first second : List Char) : Bool :=
  first.map Char.toLower = second.map Char.toLower

def header (headers : List (List Char × List Char)) (name : List Char) : Option (List Char) :=
  (headers.find? fun entry => eqIgnoreAsciiCase entry.1 name).map Prod.snd

namespace Listener

variable (listener : Listener)

/-- Both routes end alike: the kind of the event from a header, its body, and the
payloads. -/
def payloadsFor (clockNanos : Nat) (body : List UInt8) (eventKind : Option (List Char))
    (missing : List Char) : Except HandleError (List JobSubmissionPayload) :=
  match eventKind with
  | none => .error (.badRequest missing)
  | some eventKind =>
      match listener.libraries.json.fromSlice body with
      | .error error => .error (.badRequest ("invalid JSON body: ".toList ++ error))
      | .ok event =>
          buildPayloads listener.libraries clockNanos listener.manifest
            (composeEventName eventKind event) event

def handleGithub (clockNanos : Nat) (body : List UInt8)
    (headers : List (List Char × List Char)) : Except HandleError (List JobSubmissionPayload) :=
  if listener.githubSecret.isEmpty then
    .error (.badRequest "github webhook delivered but --github-secret not configured".toList)
  else
    match header headers "x-hub-signature-256".toList with
    | none => .error .badSignature
    | some signature =>
        match verifyGithubSignature listener.libraries body signature listener.githubSecret with
        | .error _ => .error .badSignature
        | .ok () => listener.payloadsFor clockNanos body
            (header headers "x-github-event".toList) "missing X-GitHub-Event".toList

def handleGitlab (clockNanos : Nat) (body : List UInt8)
    (headers : List (List Char × List Char)) : Except HandleError (List JobSubmissionPayload) :=
  if listener.gitlabToken.isEmpty then
    .error (.badRequest "gitlab webhook delivered but --gitlab-token not configured".toList)
  else
    match header headers "x-gitlab-token".toList with
    | none => .error .badSignature
    | some provided =>
        match verifyGitlabToken provided listener.gitlabToken with
        | .error _ => .error .badSignature
        | .ok () => listener.payloadsFor clockNanos body
            (header headers "x-gitlab-event".toList) "missing X-Gitlab-Event".toList

/-- The payloads that a request to one of the two routes leads to; any other request is
answered at once. -/
def submissions (clockNanos : Nat) (request : Request) :
    Except Response (Except HandleError (List JobSubmissionPayload)) :=
  if request.method ≠ "POST".toList then
    .error ⟨405, "method not allowed".toList⟩
  else
    match request.body with
    | none => .error ⟨400, "bad request".toList⟩
    | some body =>
        let route := (request.url.splitOn '?').headD request.url
        if route = "/webhook/github".toList then
          .ok (listener.handleGithub clockNanos body request.headers)
        else if route = "/webhook/gitlab".toList then
          .ok (listener.handleGitlab clockNanos body request.headers)
        else
          .error ⟨404, "no such route".toList⟩

/-- Answer one request: the lines that are printed, and the response. -/
def serve (clockNanos : Nat) (request : Request) : List (List Char) × Response :=
  match listener.submissions clockNanos request with
  | .error response => ([], response)
  | .ok (.ok payloads) =>
      (payloads.map fun payload => signAndSerialize payload listener.tenantKeypair,
        ⟨202, "accepted (".toList ++ Json.number payloads.length ++ " submission(s))".toList⟩)
  | .ok (.error .badSignature) => ([], ⟨401, "unauthorized".toList⟩)
  | .ok (.error (.badRequest reason)) => ([], ⟨400, reason⟩)
  | .ok (.error (.internal _)) => ([], ⟨500, "internal error".toList⟩)

end Listener

end Cosaci.Webhook
