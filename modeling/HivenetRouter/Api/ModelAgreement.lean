import HivenetRouter.Api.Passthrough
import HivenetRouter.Api.ModelScan

/-!
# The model that is authorised and the model that is served

The router decodes a body into a struct, authorises the model it finds there, and forwards
the bytes of the body. A backend reads those bytes again. `encoding/json` matches keys up to
case and lets a later member overwrite an earlier one, whereas `backendModel` is what a
reader that compares keys exactly takes for the model.

`servedModel_eq_iff` says for which bodies the two readings agree. Bodies for which they do
not, such as `{"model":"a","MODEL":"b"}`, are accepted: the router authorises `b` and
the backend serves `a` (`servedModel_differs`).
-/

namespace HivenetRouter.Api

open Domain Option
open Json (lastMember valuesFor lastString lookupField foldName decodeStruct)

/-- What the body forwarded to an agent has as the value of its last member named exactly
`model`. -/
def backendModel (body : List UInt8) : Option Json :=
  match Json.parse body with
  | some (.obj members, _) => (lastMember "model" members).map (·.1)
  | _ => none

/-- The last member named exactly `model` is a string, and the last string among the members
after it that are named `model` in another case, if there is one, is the same string. -/
def modelUnambiguous (body : List UInt8) : Bool :=
  match Json.parse body with
  | some (.obj members, _) =>
    match lastMember "model" members with
    | some (.str s, after) => (lastString (valuesFor chatFields .model after)).all (· = s)
    | _ => false
  | _ => false

/-- The router takes for the model every member named `model` up to case. -/
theorem lookupField_model_iff (key : String) :
    lookupField chatFields key = some .model ↔ foldName key = foldName "model" :=
  Json.lookupField_eq_some_iff (by decide) (by decide) List.mem_cons_self key

section

variable {raw : List UInt8} {req req' : ChatRequest}

theorem setChatField_model {v : Json} (h : setChatField .model raw v req = some req') :
    Json.decodeString req.model v = some req'.model := by
  obtain ⟨s, hs, rfl⟩ := map_eq_some_iff.mp h
  exact hs

theorem setChatField_model_of_ne {f : ChatField} (hf : f ≠ .model) {v : Json}
    (h : setChatField f raw v req = some req') :
    req'.model = req.model := by
  cases f with
  | model => exact absurd rfl hf
  | system | tools => rw [← some.inj h]
  | messages | modalities | audio | maxCompletionTokens | maxTokens | temperature | topP
  | stream | serviceTier =>
    obtain ⟨_, -, rfl⟩ := map_eq_some_iff.mp h
    rfl

/-- An accepted body is an object, and the model is the last string that is named `model`
up to case. -/
theorem parsePassthroughRequest_model {body : Body} (h : parsePassthroughRequest body = .ok req) :
    ∃ members rest, Json.parse body.bytes = some (.obj members, rest) ∧
      req.model = (lastString (valuesFor chatFields .model members)).getD "" := by
  rw [parsePassthroughRequest] at h
  split at h
  · cases h
  · next req' hdecode =>
    obtain ⟨hmodel, hlen, rfl⟩ : ¬req'.model = "" ∧ ¬byteLen req'.model > 256 ∧ req' = req := by
      split_ifs at h with h₁ h₂
      exact ⟨h₁, h₂, Except.ok.inj h⟩
    obtain ⟨⟨v, rest⟩, hparse, hv⟩ := bind_eq_some_iff.mp hdecode
    cases v with
    | null =>
      -- `null` leaves the zero request, whose model is empty
      rw [← some.inj hv] at hmodel
      exact absurd rfl hmodel
    | obj members =>
      exact ⟨members, rest, hparse,
        Json.decodeStruct_string setChatField_model (fun hf => setChatField_model_of_ne hf) hv⟩
    | _ => exact absurd hv (by simp [decodeStruct])

theorem eq_getD_iff (o : Option String) (s : String) : s = o.getD s ↔ o.all (· = s) = true := by
  cases o with
  | none => exact iff_of_true rfl rfl
  | some => exact eq_comm.trans decide_eq_true_iff.symm

/-- **The model that is served is the one that was authorised exactly when the body names it
unambiguously.** -/
theorem servedModel_eq_iff (body : Body) {req : ChatRequest}
    (hreq : parsePassthroughRequest body = .ok req) :
    backendModel body.bytes = some (.str req.model) ↔ modelUnambiguous body.bytes = true := by
  obtain ⟨members, rest, hparse, hmodel⟩ := parsePassthroughRequest_model hreq
  unfold backendModel modelUnambiguous
  rw [hparse]
  dsimp only
  cases hlast : lastMember "model" members with
  | none => simp
  | some r =>
    obtain ⟨v, after⟩ := r
    obtain ⟨before, raw, hmembers⟩ := Json.lastMember_eq_some hlast
    cases v with
    | str s =>
      -- the router's reading goes on from `s` with the members after it
      have hread : req.model = (lastString (valuesFor chatFields .model after)).getD s := by
        have hthis : lookupField chatFields "model" = some .model :=
          (lookupField_model_iff "model").mpr rfl
        rw [hmodel, hmembers, Json.valuesFor_append, Json.valuesFor_cons_of_eq hthis,
          Json.lastString_append, lastString, Json.asString]
        cases lastString (valuesFor chatFields .model after) with
        | some | none => rfl
      rw [hread]
      show some (Json.str s) = some (Json.str _) ↔ _
      rw [some_inj, Json.str.injEq, eq_getD_iff]
    | _ => simp

/-! ### Two bodies -/

/-- A body with the members `"model":"a"` and `key:"b"`. -/
def twoModels (key : String) : List UInt8 :=
  ("\x7b\"model\":\"a\",\"" ++ key ++ "\":\"b\"\x7d").toList.map Json.byte

def requestFor (model : String) : ChatRequest := { ChatRequest.zero with model := model }

/-- A second member with a key of its own does not matter. -/
theorem servedModel_eq_user :
    parsePassthroughRequest ⟨twoModels "user", by decide⟩ = .ok (requestFor "a") ∧
      backendModel (twoModels "user") = some (.str "a") :=
  have hreq : parsePassthroughRequest ⟨twoModels "user", by decide⟩ = .ok (requestFor "a") := by
    decide +kernel
  ⟨hreq, (servedModel_eq_iff ⟨twoModels "user", by decide⟩ hreq).mpr (by decide +kernel)⟩

/-- With `MODEL` for its key, it is the model that the router reads, and the backend reads the
other one. -/
theorem servedModel_differs :
    parsePassthroughRequest ⟨twoModels "MODEL", by decide⟩ = .ok (requestFor "b") ∧
      (backendModel (twoModels "MODEL")).bind Json.asString = some "a" := by
  refine ⟨?_, ?_⟩
  all_goals decide +kernel

end

/-!
## The model of a patched body

A request for an alias is forwarded with the model that the alias was resolved to:
`replaceTopLevelModel` writes it into the body, and the body is decoded again. The scanner replaces
the value of the last member whose key is exactly `model`, whereas the decoder takes a later one
whose key is `model` in another case: `{"model":"a","Model":"b"}` is patched in `"a"`, and decodes
to `b` (`not_agrees_twoModels`).

`alias_agrees_iff` says for which bodies the two agree. The scanner does not parse, so the condition
is about bodies that need not be JSON texts: what stood for the value may have been any bytes that
the scanner skips.
-/

open List
open Json (Headed maxNestingDepth)

/-- A body that could be patched with the model `m` decodes to `m`, and names `m` for a reader of
its bytes. -/
def AliasAgrees (body : List UInt8) (m : String) : Prop :=
  ∀ patched, replaceTopLevelModel body m = .ok patched →
    ∃ req, decodeChatRequest patched = some req ∧ req.model = m ∧
      backendModel patched = some (.str m)

/-- The value of a member decodes into the field that takes it, if there is one. -/
def Decodes (x : String × List UInt8 × Json) : Prop :=
  ∀ f ∈ lookupField chatFields x.1, (setChatField f x.2.1 x.2.2 .zero).isSome

/-- The body is the text of an object but for the value of the last member whose key is exactly
`model`. That one is any bytes that the scanner skips. The other members decode, and the last string
among those behind it that are named `model` in another case, if there is one, is `m`. -/
def AliasUnambiguous (body : List UInt8) (m : String) : Prop :=
  ∃ pre raw post rest before after, body = pre ++ (raw ++ post) ∧ SkipsValue raw ∧
    Headed (Json.isSpace · = false) (raw ++ post) ∧
    BodyHole (maxNestingDepth - 1) rest pre post before after ∧ (∀ x ∈ after, x.1 ≠ "model") ∧
    (∀ x ∈ before ++ after, Decodes x) ∧
    (lastString (valuesFor chatFields .model after)).all (· = m) = true

/-! ### Decoding -/

theorem decodeString_isSome (cur cur' : String) (v : Json) :
    (Json.decodeString cur v).isSome = (Json.decodeString cur' v).isSome := by
  cases v <;> rfl

theorem decodeInt_isSome (cur cur' : ℤ) (v : Json) :
    (Json.decodeInt cur v).isSome = (Json.decodeInt cur' v).isSome := by
  cases v <;> rfl

/-- Whether a value decodes into a field does not depend on the request so far. -/
theorem setChatField_isSome (f : ChatField) (raw : List UInt8) (v : Json) (req req' : ChatRequest) :
    (setChatField f raw v req).isSome = (setChatField f raw v req').isSome := by
  cases f with
  | model =>
    simp only [setChatField, isSome_map]
    exact decodeString_isSome _ _ v
  | maxCompletionTokens | maxTokens =>
    simp only [setChatField, isSome_map]
    exact decodeInt_isSome _ _ v
  | _ => simp [setChatField]

section Members

variable {bytes raw rest : List UInt8} {before after : List (String × List UInt8 × Json)}
  {m : String}

variable (hparse : Json.parse bytes = some (.obj (before ++ ("model", raw, .str m) :: after), rest))

include hparse

/-- The members of a patched body: the model among others. -/
theorem decodes_iff : (decodeChatRequest bytes).isSome ↔ ∀ x ∈ before ++ after, Decodes x := by
  have hmodel : Decodes ("model", raw, .str m) := by
    intro f hf
    rw [(lookupField_model_iff "model").mpr rfl] at hf
    obtain rfl := some.inj hf
    rfl
  have hdecode : decodeChatRequest bytes = Json.decodeStruct chatFields setChatField .zero
      (.obj (before ++ ("model", raw, .str m) :: after)) := by
    rw [decodeChatRequest, hparse]
    rfl
  rw [hdecode, Json.decodeStruct_isSome_iff setChatField_isSome .zero .zero]
  show (∀ x ∈ _, Decodes x) ↔ _
  rw [forall_mem_append, forall_mem_append, forall_mem_cons]
  exact and_congr_right fun _ => and_iff_right hmodel

/-- The model is the last string behind it that a field named `model` takes, or else itself. -/
theorem model_eq_iff {req : ChatRequest}
    (hreq : decodeChatRequest bytes = some req) :
    req.model = m ↔ (lastString (valuesFor chatFields .model after)).all (· = m) = true := by
  rw [decodeChatRequest, hparse] at hreq
  have hread :
      req.model = (lastString (valuesFor chatFields .model _)).getD ChatRequest.zero.model :=
    Json.decodeStruct_string setChatField_model (fun hf => setChatField_model_of_ne hf) hreq
  rw [Json.valuesFor_append, Json.valuesFor_cons_of_eq ((lookupField_model_iff "model").mpr rfl),
    Json.lastString_append, lastString, Json.asString] at hread
  rw [hread, ← eq_getD_iff, eq_comm]
  cases lastString (valuesFor chatFields .model after) with
  | some | none => rfl

theorem backendModel_eq (hnone : ∀ x ∈ after, x.1 ≠ "model") :
    backendModel bytes = some (.str m) := by
  have hafter : lastMember "model" after = none := by
    cases hlast : lastMember "model" after with
    | none => rfl
    | some r =>
      obtain ⟨before', raw', rfl⟩ := Json.lastMember_eq_some hlast
      exact absurd rfl (hnone ("model", raw', r.1) (mem_append_right _ mem_cons_self))
  have hall : lastMember "model" (before ++ ("model", raw, .str m) :: after) =
      some (.str m, after) := by
    clear hparse
    induction before with
    | nil => rw [nil_append, lastMember, hafter]; rfl
    | cons x before ih => rw [cons_append, lastMember, ih]
  rw [backendModel, hparse]
  dsimp only
  rw [hall]
  rfl

end Members

/-! ### The patched body -/

/-- The depth of the members of a body that is not nested too deep. -/
theorem maxNestingDepth_eq : maxNestingDepth - 1 + 1 = maxNestingDepth := by decide

section Patched

variable {body pre raw post rest : List UInt8} {before after : List (String × List UInt8 × Json)}
  {m : String}

theorem parse_filled (h : BodyHole (maxNestingDepth - 1) rest pre post before after) :
    Json.parse (pre ++ (Json.quote m ++ post)) =
      some (.obj (before ++ ("model", Json.quote m, .str m) :: after), rest) := by
  obtain ⟨sp, w, hsp, hw, htext⟩ := h.value (Json.value_quote m _)
  rw [maxNestingDepth_eq] at hw
  exact Json.parse_obj_iff.mpr ⟨sp, w, hsp, hw, htext⟩

/-- **A patched body that is the text of an object has the model in a hole of it**: a second scan
finds the model, and on the text of an object what is found is such a hole. -/
theorem hole_of_patched {p : Found} {members : List (String × List UInt8 × Json)}
    (hscanned : ScannedBody body (some p))
    (hparse : Json.parse (p.pre ++ (Json.quote m ++ p.post)) = some (.obj members, rest)) :
    ∃ before after, (∀ x ∈ after, x.1 ≠ "model") ∧
      BodyHole (maxNestingDepth - 1) rest p.pre p.post before after := by
  have hvalue := Json.value_quote m 0
  obtain ⟨-, -, -, hfill⟩ := hscanned.exchange
  have hagain := hfill _ (skipsValue_value hvalue) hvalue.begins.headed
  obtain ⟨sp, w, hsp, hw, htext⟩ := Json.parse_obj_iff.mp hparse
  obtain ⟨-, hnone⟩ | ⟨d, before, raw, v, after, pre, post, hd, -, hnone, htext', hv, hhole⟩ :=
    scanned_obj rest hsp hw
  · rw [htext] at hagain
    cases hagain.unique hnone
  · have hfound := hhole.scanned hnone (skipsValue_value hv) (hv.begins.headed _)
    rw [← htext', ← htext] at hfound
    have heq := some.inj (hagain.unique hfound)
    obtain rfl : d = maxNestingDepth - 1 := by omega
    refine ⟨before, after, hnone, ?_⟩
    rwa [congrArg Found.pre heq, congrArg Found.post heq]

end Patched

/-- **A patched body decodes to the model that was written exactly if the body is unambiguous.** -/
theorem alias_agrees_iff (body : List UInt8) (m : String) : AliasAgrees body m ↔
      ((∃ patched, replaceTopLevelModel body m = .ok patched) → AliasUnambiguous body m) := by
  constructor
  · rintro hagrees ⟨patched, hok⟩
    obtain ⟨req, hreq, hmodel, hbackend⟩ := hagrees patched hok
    obtain ⟨p, hscanned, rfl⟩ := scannedBody_of_replaced hok
    obtain ⟨htext, hskips, hstart, -⟩ := hscanned.exchange
    -- a reader of the bytes finds a model, so they are the text of an object
    obtain ⟨members, rest, hparse⟩ : ∃ members rest,
        Json.parse (p.pre ++ (Json.quote m ++ p.post)) = some (.obj members, rest) := by
      unfold backendModel at hbackend
      split at hbackend
      · next members rest hparse => exact ⟨members, rest, hparse⟩
      · cases hbackend
    obtain ⟨before, after, hnone, hhole⟩ := hole_of_patched hscanned hparse
    have hfilled := parse_filled (m := m) hhole
    refine ⟨p.pre, p.raw, p.post, rest, before, after, htext, hskips, hstart, hhole, hnone, ?_, ?_⟩
    · exact (decodes_iff hfilled).mp (by rw [hreq]; rfl)
    · exact (model_eq_iff hfilled hreq).mp hmodel
  · intro hcondition patched hok
    obtain ⟨pre, raw, post, rest, before, after, rfl, hskips, hstart, hhole, hnone, hdecodes,
      hlast⟩ :=
      hcondition ⟨patched, hok⟩
    rw [replaceTopLevelModel_scanned (hhole.scanned hnone hskips hstart)] at hok
    obtain rfl := Except.ok.inj hok
    have hfilled := parse_filled (m := m) hhole
    obtain ⟨req, hreq⟩ := isSome_iff_exists.mp ((decodes_iff hfilled).mpr hdecodes)
    exact ⟨req, hreq, (model_eq_iff hfilled hreq).mpr hlast, backendModel_eq hfilled hnone⟩

/-- A second member whose key is `Model` is read for the model that was written. -/
theorem not_agrees_twoModels : ¬ ∀ body m, AliasAgrees body m := by
  intro hall
  have hok : replaceTopLevelModel (twoModels "Model") "m" =
      .ok (("\x7b\"model\":\"m\",\"Model\":\"b\"\x7d").toList.map Json.byte) := by decide +kernel
  have hread :
      (decodeChatRequest (("\x7b\"model\":\"m\",\"Model\":\"b\"\x7d").toList.map Json.byte)).map
      ChatRequest.model = some "b" := by decide +kernel
  obtain ⟨req, hreq, hmodel, -⟩ := hall _ _ _ hok
  rw [hreq, map_some, hmodel] at hread
  exact absurd (some.inj hread) (by decide)

end HivenetRouter.Api
