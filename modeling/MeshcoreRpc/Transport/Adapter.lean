import MeshcoreRpc.Schemas

/-!
# The transport adapter

`inbound_to_request` and its helpers.  What `json.loads` makes of a text is a
parameter; of what it raises, only a `JSONDecodeError` is caught.
-/

namespace MeshcoreRpc

namespace Transport

/-! ## Decoding -/

/-- Where a UTF-8 decoder stands between two bytes. -/
inductive Pending where
  | start
  /-- So many continuation bytes are to come, the next one between two bounds. -/
  | within (more bits lo hi : ℕ)

def replacement : Char := '\uFFFD'

/-- What the first byte of a sequence gives, and where it leaves the decoder. -/
def firstByte (b : ℕ) : List Char × Pending :=
  if b < 0x80 then ([Char.ofNat b], .start)
  else if b < 0xC2 then ([replacement], .start)
  else if b < 0xE0 then ([], .within 1 (b - 0xC0) 0x80 0xBF)
  -- no overlong forms, no surrogates, nothing above U+10FFFF
  else if b < 0xF0 then
    ([], .within 2 (b - 0xE0) (if b = 0xE0 then 0xA0 else 0x80) (if b = 0xED then 0x9F else 0xBF))
  else if b < 0xF5 then
    ([], .within 3 (b - 0xF0) (if b = 0xF0 then 0x90 else 0x80) (if b = 0xF4 then 0x8F else 0xBF))
  else ([replacement], .start)

/-- The characters of the bytes; a sequence that breaks off is replaced as a whole. -/
def decodeFrom : Pending → List UInt8 → List Char
  | .start, [] => []
  | .within .., [] => [replacement]
  | .start, b :: rest => (firstByte b.toNat).1 ++ decodeFrom (firstByte b.toNat).2 rest
  | .within more bits lo hi, b :: rest =>
    if lo ≤ b.toNat ∧ b.toNat ≤ hi then
      if more = 1 then Char.ofNat (bits * 64 + (b.toNat - 0x80)) :: decodeFrom .start rest
      else decodeFrom (.within (more - 1) (bits * 64 + (b.toNat - 0x80)) 0x80 0xBF) rest
    else replacement :: ((firstByte b.toNat).1 ++ decodeFrom (firstByte b.toNat).2 rest)

inductive RawPayload where
  | bytes (bs : List UInt8)
  | text (s : String)

/-- `_decode` -/
def decode : RawPayload → String
  | .bytes bs => String.ofList (decodeFrom .start bs)
  | .text s => s

/-- Text that is cut off or never was UTF-8 does not stop the decoder. -/
example : decode (.bytes [0x7b, 0xc3, 0xa9, 0xff, 0xe2, 0x82]) = "\x7bé\uFFFD\uFFFD" := by
  decide +kernel

theorem decodeFrom_ascii {bs : List UInt8} (h : ∀ b ∈ bs, b.toNat < 0x80) :
    decodeFrom .start bs = bs.map fun b ↦ Char.ofNat b.toNat := by
  induction bs with
  | nil => rfl
  | cons b bs ih =>
      obtain ⟨hb, hbs⟩ := List.forall_mem_cons.mp h
      have hfirst : firstByte b.toNat = ([Char.ofNat b.toNat], .start) := by
        rw [firstByte, if_pos hb]
      rw [decodeFrom, hfirst, ih hbs]
      rfl

/-! ## Requests -/

structure InboundEnvelope where
  request : Option Request
  errorResponse : Option Response
  sourceTopic : String

section Inbound

variable (num : Numerals) (py : Pydantic) (loads : String → Except PyExc PyVal)

/-- `_try_build_bad_request_response` -/
def tryBuildBadRequestResponse (data : PyVal) : Option Response :=
  match data with
  | .dict kvs =>
    let reqId := getKey kvs "id"
    let reqType := getKey kvs "type"
    let to_ := getKey kvs "from"
    if !reqId.truthy || !to_.truthy then none
    else
      some (Response.makeError (reqId.toStr num) ((reqType.or (.str "unknown")).toStr num)
        (to_.toStr num) Errors.badRequest "Request payload failed validation")
  | _ => none

def inboundToRequest (topic : String) (rawPayload : RawPayload) : Except PyExc InboundEnvelope :=
  match loads (decode rawPayload) with
  | .error err =>
    if err = .jsonDecodeError then .ok ⟨none, none, topic⟩ else .error err
  | .ok data =>
    match Request.modelValidate py data with
    | .error err =>
      if err = .validationError then .ok ⟨none, tryBuildBadRequestResponse num data, topic⟩
      else .error err
    | .ok request => .ok ⟨some request, none, topic⟩

/-- The payload is the JSON of the request. -/
def Accepts (raw : RawPayload) (request : Request) : Prop :=
  ∃ data, loads (decode raw) = .ok data ∧ Request.modelValidate py data = .ok request

/-- The payload is the JSON of an object that is no request, but says who asks and
which request it is. -/
def Refuses (raw : RawPayload) (kvs : List (String × PyVal)) : Prop :=
  loads (decode raw) = .ok (.dict kvs) ∧
    (∀ request, Request.modelValidate py (.dict kvs) ≠ .ok request) ∧
    (getKey kvs "id").truthy = true ∧ (getKey kvs "from").truthy = true

/-- A bad request is reported to its sender under its id and type. -/
structure Reports (kvs : List (String × PyVal)) (response : Response) : Prop where
  status : response.status = .error
  code : response.error.map ErrorBody.code = some Errors.badRequest
  to_ : response.to_ = (getKey kvs "from").toStr num
  id : response.id = (getKey kvs "id").toStr num
  type : response.type =
    if (getKey kvs "type").truthy then (getKey kvs "type").toStr num else "unknown"

/-- Every payload is a request, a bad request to report, or dropped. -/
structure Classifies (raw : RawPayload) (env : InboundEnvelope) : Prop where
  accepted : ∀ request, (env.request = some request ∧ env.errorResponse = none) ↔
    Accepts py loads raw request
  refused : (env.request = none ∧ env.errorResponse ≠ none) ↔ ∃ kvs, Refuses py loads raw kvs
  reports : ∀ response, env.errorResponse = some response →
    ∃ kvs, Refuses py loads raw kvs ∧ Reports num kvs response
  dropped : (∀ request, ¬ Accepts py loads raw request) → (∀ kvs, ¬ Refuses py loads raw kvs) →
    env.request = none ∧ env.errorResponse = none
  exclusive : env.request = none ∨ env.errorResponse = none

variable {num py loads}

theorem or_unknown (v : PyVal) :
    (v.or (.str "unknown")).toStr num = if v.truthy then v.toStr num else "unknown" := by
  rw [PyVal.or]
  split
  · rfl
  · rfl

theorem reports_of_build {data : PyVal} {response : Response}
    (h : tryBuildBadRequestResponse num data = some response) :
    ∃ kvs, data = .dict kvs ∧ (getKey kvs "id").truthy = true ∧
      (getKey kvs "from").truthy = true ∧ Reports num kvs response := by
  unfold tryBuildBadRequestResponse at h
  split at h
  · next kvs =>
      simp only [Option.ite_none_left_eq_some, Bool.or_eq_true, Bool.not_eq_true', not_or,
        Bool.not_eq_false, Option.some.injEq] at h
      obtain ⟨⟨hid, hfrom⟩, rfl⟩ := h
      exact ⟨kvs, rfl, hid, hfrom, rfl, rfl, rfl, rfl, or_unknown _⟩
  · cases h

theorem build_ne_none {kvs : List (String × PyVal)} (hid : (getKey kvs "id").truthy = true)
    (hfrom : (getKey kvs "from").truthy = true) :
    tryBuildBadRequestResponse num (.dict kvs) ≠ none := by
  simp [tryBuildBadRequestResponse, hid, hfrom]

/-- A payload that is no JSON at all. -/
theorem classifies_malformed {raw : RawPayload} {topic : String} {err : PyExc}
    (h : loads (decode raw) = .error err) : Classifies num py loads raw ⟨none, none, topic⟩ := by
  have haccepts (request : Request) : ¬ Accepts py loads raw request := by
    rintro ⟨data, hdata, _⟩
    rw [h] at hdata
    cases hdata
  have hrefuses (kvs : List (String × PyVal)) : ¬ Refuses py loads raw kvs := by
    rintro ⟨hdata, _⟩
    rw [h] at hdata
    cases hdata
  exact
    { accepted := fun request ↦ iff_of_false (by simp) (haccepts request)
      refused := iff_of_false (by simp) (fun ⟨kvs, hkvs⟩ ↦ hrefuses kvs hkvs)
      reports := by simp
      dropped := fun _ _ ↦ ⟨rfl, rfl⟩
      exclusive := .inl rfl }

theorem classifies_accepted {raw : RawPayload} {topic : String} {data : PyVal} {request : Request}
    (h : loads (decode raw) = .ok data) (hvalid : Request.modelValidate py data = .ok request) :
    Classifies num py loads raw ⟨some request, none, topic⟩ := by
  have haccepts : Accepts py loads raw request := ⟨data, h, hvalid⟩
  have hrefuses (kvs : List (String × PyVal)) : ¬ Refuses py loads raw kvs := by
    rintro ⟨hdata, hinvalid, _⟩
    rw [h] at hdata
    obtain rfl : data = .dict kvs := Except.ok.inj hdata
    exact hinvalid request hvalid
  refine
    { accepted := fun request' ↦ ⟨?_, ?_⟩
      refused := iff_of_false (by simp) (fun ⟨kvs, hkvs⟩ ↦ hrefuses kvs hkvs)
      reports := by simp
      dropped := fun hnone _ ↦ absurd haccepts (hnone request)
      exclusive := .inr rfl }
  · rintro ⟨heq, _⟩
    obtain rfl : request = request' := Option.some.inj heq
    exact haccepts
  · rintro ⟨data', hdata', hvalid'⟩
    rw [h] at hdata'
    obtain rfl : data = data' := Except.ok.inj hdata'
    rw [hvalid] at hvalid'
    exact ⟨congrArg some (Except.ok.inj hvalid'), rfl⟩

theorem classifies_rejected {raw : RawPayload} {topic : String} {data : PyVal} {err : PyExc}
    (h : loads (decode raw) = .ok data) (hinvalid : Request.modelValidate py data = .error err) :
    Classifies num py loads raw ⟨none, tryBuildBadRequestResponse num data, topic⟩ := by
  have haccepts (request : Request) : ¬ Accepts py loads raw request := by
    rintro ⟨data', hdata', hvalid⟩
    rw [h] at hdata'
    obtain rfl : data = data' := Except.ok.inj hdata'
    rw [hinvalid] at hvalid
    cases hvalid
  have hreports (response : Response)
      (hsome : tryBuildBadRequestResponse num data = some response) :
      ∃ kvs, Refuses py loads raw kvs ∧ Reports num kvs response := by
    obtain ⟨kvs, rfl, hid, hfrom, hreport⟩ := reports_of_build hsome
    refine ⟨kvs, ⟨h, fun request hvalid ↦ ?_, hid, hfrom⟩, hreport⟩
    rw [hinvalid] at hvalid
    cases hvalid
  have hrefused (kvs : List (String × PyVal)) (hkvs : Refuses py loads raw kvs) :
      tryBuildBadRequestResponse num data ≠ none := by
    obtain ⟨hdata, _, hid, hfrom⟩ := hkvs
    rw [h] at hdata
    obtain rfl : data = .dict kvs := Except.ok.inj hdata
    exact build_ne_none hid hfrom
  refine
    { accepted := fun request ↦ iff_of_false (by simp) (haccepts request)
      refused := ⟨?_, fun ⟨kvs, hkvs⟩ ↦ ⟨rfl, hrefused kvs hkvs⟩⟩
      reports := hreports
      dropped := fun _ hnone ↦ ⟨rfl, ?_⟩
      exclusive := .inl rfl }
  · rintro ⟨_, hsome⟩
    obtain ⟨response, hresponse⟩ := Option.ne_none_iff_exists'.mp hsome
    obtain ⟨kvs, hkvs, _⟩ := hreports response hresponse
    exact ⟨kvs, hkvs⟩
  · by_contra hsome
    obtain ⟨response, hresponse⟩ := Option.ne_none_iff_exists'.mp hsome
    obtain ⟨kvs, hkvs, _⟩ := hreports response hresponse
    exact hnone kvs hkvs

/-- `inbound_to_request` returns, and classifies the payload, exactly when `json.loads` raises
nothing on its text but a `JSONDecodeError`. -/
theorem inboundToRequest_classifies_iff (num : Numerals) (py : Pydantic)
    (loads : String → Except PyExc PyVal) (topic : String) (raw : RawPayload) :
    (∃ env, inboundToRequest num py loads topic raw = .ok env ∧ env.sourceTopic = topic ∧
      Classifies num py loads raw env) ↔
      ∀ err, loads (decode raw) = .error err → err = .jsonDecodeError := by
  constructor
  · rintro ⟨env, henv, _⟩ err herr
    by_contra hother
    simp only [inboundToRequest, herr, if_neg hother] at henv
    cases henv
  · intro h
    rcases hloads : loads (decode raw) with err | data
    · refine ⟨⟨none, none, topic⟩, ?_, rfl, classifies_malformed hloads⟩
      simp only [inboundToRequest, hloads]
      rw [if_pos (h err hloads)]
    · rcases hvalid : Request.modelValidate py data with err | request
      · refine ⟨_, ?_, rfl, classifies_rejected hloads hvalid⟩
        simp only [inboundToRequest, hloads, hvalid]
        rw [if_pos (Request.modelValidate_error py hvalid)]
      · refine ⟨_, ?_, rfl, classifies_accepted hloads hvalid⟩
        simp only [inboundToRequest, hloads, hvalid]

/-- Numbers, which `json.loads` reads up to 4300 digits. -/
def digitLoads (text : String) : Except PyExc PyVal :=
  if text = "" ∨ ¬ text.toList.all Char.isDigit then .error .jsonDecodeError
  else if 4300 < text.length then .error .valueError
  else .ok (.int (text.toList.foldl (fun n c ↦ 10 * n + (c.toNat - 48)) 0))

/-- Integers and strings as they are. -/
def samplePydantic : Pydantic where
  int
    | .int n => some n
    | _ => none
  str
    | .str s => some s
    | _ => none

theorem digitLoads_long {n : ℕ} (h : 4300 < n) :
    digitLoads (String.ofList (List.replicate n '1')) = .error .valueError := by
  have hdigit : Char.isDigit '1' = true := by decide
  have hne : n ≠ 0 := by omega
  simp [digitLoads, hdigit, hne, h]

/-- An integer of 4301 digits ends the task that handles it. -/
theorem inbound_raises_long_integer :
    ¬ ∃ env, inboundToRequest .plain samplePydantic digitLoads Topics.rpcRequest
        (.bytes (List.replicate 4301 0x31)) = .ok env ∧ env.sourceTopic = Topics.rpcRequest ∧
      Classifies .plain samplePydantic digitLoads (.bytes (List.replicate 4301 0x31)) env := by
  have hascii : ∀ b ∈ List.replicate 4301 (0x31 : UInt8), b.toNat < 0x80 := by
    intro b hb
    rw [List.eq_of_mem_replicate hb]
    decide
  have hdecode : decode (.bytes (List.replicate 4301 0x31)) =
      String.ofList (List.replicate 4301 '1') := by
    rw [decode, decodeFrom_ascii hascii, List.map_replicate]
    rfl
  rintro ⟨env, henv, _⟩
  rw [inboundToRequest, hdecode, digitLoads_long (by omega)] at henv
  simp at henv

end Inbound

end Transport

end MeshcoreRpc
