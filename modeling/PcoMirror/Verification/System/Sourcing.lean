import PcoMirror.Verification.Walk.Crediting
import PcoMirror.Verification.Writer.Projection

/-! What the mirror writes: whatever its programs do to the tables is a sequence of the writer's own
statements, on documents that PCO has answered with or that were posted. -/

namespace PcoMirror

open Program

/-! ## The documents of an answer -/

/-- A document among the records of a body, or beside them. -/
inductive Bears (body : Json) : Json → Prop where
  | record {doc : Json} (h : body.member? "data" = some doc) : Bears body doc
  | item {doc : Json} {items : List Json} (h : body.member? "data" = some (.arr items))
      (hdoc : doc ∈ items) : Bears body doc
  | included {doc : Json} {items : List Json} (h : body.member? "included" = some (.arr items))
      (hdoc : doc ∈ items) : Bears body doc

def Response.Carries (resp : Response) (doc : Json) : Prop :=
  ∃ body, resp.document = .ok body ∧ Bears body doc

/-- A value looked up in a decoded object. -/
theorem member?_of_pyGet {j v : Json} {key : String} (h : pyGet j key = .ok (some v)) :
    j.member? key = some v := by
  cases j with
  | obj members => exact Except.ok.inj h
  | _ => cases h

theorem bears_of_pageData {body doc : Json} {items : List Json} (h : pageData body = .ok items)
    (hdoc : doc ∈ items) : Bears body doc := by
  obtain ⟨data, hdata, hitems⟩ := except_bind_eq_ok.mp h
  cases data with
  | none =>
      cases hitems
      cases hdoc
  | some data =>
      have hmember := member?_of_pyGet hdata
      cases data with
      | arr records =>
          cases hitems
          exact .item hmember (List.mem_of_mem_filter hdoc)
      | _ =>
          cases hitems
          rw [List.mem_singleton.mp (List.mem_of_mem_filter hdoc)]
          exact .record hmember

theorem bears_of_pageIncluded {body doc : Json} {items : List Json}
    (h : pageIncluded body = .ok items) (hdoc : doc ∈ items) : Bears body doc := by
  obtain ⟨included, hincluded, hitems⟩ := except_bind_eq_ok.mp h
  cases included with
  | none =>
      cases hitems
      cases hdoc
  | some included =>
      cases included with
      | arr beside =>
          cases hitems
          exact .included (member?_of_pyGet hincluded) hdoc
      | _ =>
          simp only at hitems
          split at hitems <;> cases hitems
          cases hdoc

theorem carries_of_recordOf {resp : Response} {doc : Json} (h : recordOf resp = .ok (some doc)) :
    resp.Carries doc := by
  obtain ⟨body, hbody, hrest⟩ := except_bind_eq_ok.mp h
  obtain ⟨data, hdata, hdoc⟩ := except_bind_eq_ok.mp hrest
  have hfound : data.filter Json.truthy = some doc := Except.ok.inj hdoc
  cases (Option.filter_eq_some_iff.mp hfound).1
  exact ⟨body, hbody, .record (member?_of_pyGet hdata)⟩

/-- An object that a page iterates over is one of its records: the items of an object or of a text
are texts. -/
theorem bears_of_items {body data doc v : Json} {items : List Json} {key : String}
    (hdata : dataOf body = .ok data) (hitems : pyItems data = .ok items) (hdoc : doc ∈ items)
    (hobject : pyItem doc key = .ok v) : Bears body doc := by
  obtain ⟨found, hfound, hgiven⟩ := except_bind_eq_ok.mp hdata
  cases found with
  | none =>
      cases hgiven
      cases hitems
      cases hdoc
  | some found =>
      cases hgiven
      cases found with
      | arr records =>
          cases hitems
          exact .item (member?_of_pyGet hfound) hdoc
      | obj members =>
          cases hitems
          obtain ⟨e, -, rfl⟩ := List.mem_map.mp hdoc
          cases hobject
      | str s =>
          cases hitems
          obtain ⟨c, -, rfl⟩ := List.mem_map.mp hdoc
          cases hobject
      | _ => cases hitems

/-! ## Documents at hand -/

/-- PCO has answered a request with the document. -/
def World.Answered (w : World) (doc : Json) : Prop :=
  ∃ request resp, .exchange request (.ok resp) ∈ w.log ∧ resp.Carries doc

/-- The document was posted, or PCO has answered a request with it. -/
def World.Supplied (posted : Json → Prop) (w : World) (doc : Json) : Prop :=
  posted doc ∨ w.Answered doc

variable {posted known : Json → Prop} {w w' : World} {doc : Json}

theorem World.Supplied.mono (h : w.Supplied posted doc) (hlog : w.log <:+ w'.log) :
    w'.Supplied posted doc := by
  refine h.imp_right ?_
  rintro ⟨request, resp, hentry, hcarries⟩
  exact ⟨request, resp, hlog.mem hentry, hcarries⟩

/-! ## Statements of the writer -/

/-- The document a statement brings to the tables. -/
def TableWrite.document? : TableWrite → Option Json
  | .route resource .. => some resource
  | .confirmLive _ _ raw _ | .refresh _ _ raw _ | .recordMerger _ raw _ => some raw
  | .tombstone .. => none

/-- `INSERT OR IGNORE` enters a merge once. -/
def TableWrite.Fits (db : Db) : TableWrite → Prop
  | .recordMerger id .. => db.row? .personMerger id = none
  | _ => True

/-- The tables come of others by statements of the writer, on known documents. -/
inductive Db.Written (known : Json → Prop) (base : Db) : Db → Prop where
  | start : Written known base base
  | write {db : Db} (before : Written known base db) (x : TableWrite)
      (hdoc : ∀ doc, x.document? = some doc → known doc) (hfits : x.Fits db) :
      Written known base (x.apply db)

theorem Db.Written.mono {known known' : Json → Prop} {base db : Db} (h : Db.Written known base db)
    (himp : ∀ doc, known doc → known' doc) : Db.Written known' base db := by
  induction h with
  | start => exact .start
  | write _ x hdoc hfits ih => exact .write ih x (fun doc hx => himp doc (hdoc doc hx)) hfits

/-! ## States -/

/-- What a captured payload is decoded to. -/
def Body.decoded? : Body → Option Json
  | .empty => some (.obj [])
  | .invalid => none
  | .json j => some j

/-- The document that processing an event comes to. -/
def WebhookEvent.Brings (ev : WebhookEvent) (doc : Json) : Prop :=
  ∃ decoded, ev.payload.decoded? = some decoded ∧ unwrap decoded = .ok doc

/-- The tables are written from known documents, and every event in the inbox was posted. -/
structure World.Sourced (posted : Json → Prop) (base : Db) (w : World) : Prop where
  tables : Db.Written (w.Supplied posted) base w.db
  inbox : ∀ row ∈ w.events, ∀ doc, row.2.Brings doc → posted doc

theorem World.Sourced.aside {base : Db} (h : w.Sourced posted base) (hdb : w'.db = w.db)
    (hlog : w.log <:+ w'.log) (hevents : w'.events = w.events) : w'.Sourced posted base where
  tables := hdb ▸ h.tables.mono fun _ hdoc => hdoc.mono hlog
  inbox := hevents ▸ h.inbox

theorem World.Sourced.write {base : Db} (h : w.Sourced posted base) (x : TableWrite)
    (hdoc : ∀ doc, x.document? = some doc → w.Supplied posted doc) (hfits : x.Fits w.db)
    (hdb : w'.db = x.apply w.db) (hlog : w.log <:+ w'.log) (hevents : w'.events = w.events) :
    w'.Sourced posted base where
  tables := by
    rw [hdb]
    exact (h.tables.write x hdoc hfits).mono fun _ hdoc => hdoc.mono hlog
  inbox := hevents ▸ h.inbox

/-- The state is sourced, and the documents at hand are known. -/
structure World.AtHand (posted known : Json → Prop) (base : Db) (w : World) : Prop where
  sourced : w.Sourced posted base
  knows : ∀ doc, known doc → w.Supplied posted doc

theorem World.AtHand.aside {base : Db} (h : w.AtHand posted known base) (hdb : w'.db = w.db)
    (hlog : w.log <:+ w'.log) (hevents : w'.events = w.events) :
    w'.AtHand posted known base where
  sourced := h.sourced.aside hdb hlog hevents
  knows doc hdoc := (h.knows doc hdoc).mono hlog

theorem World.AtHand.write {base : Db} (h : w.AtHand posted known base) (x : TableWrite)
    (hdoc : ∀ doc, x.document? = some doc → known doc) (hfits : x.Fits w.db)
    (hdb : w'.db = x.apply w.db) (hlog : w.log <:+ w'.log) (hevents : w'.events = w.events) :
    w'.AtHand posted known base where
  sourced := h.sourced.write x (fun doc hx => h.knows doc (hdoc doc hx)) hfits hdb hlog hevents
  knows doc hdoc := (h.knows doc hdoc).mono hlog

/-! ## Programs -/

variable {env : Env} {α β : Type}

/-- With these documents at hand, whatever the program writes is written from known ones, however
it ends. -/
def Sources (posted known : Json → Prop) (m : Proc α) : Prop :=
  ∀ base, Keeps (World.AtHand posted known base) m

theorem sources_pure (a : α) : Sources posted known (pure a : Proc α) :=
  fun _ => Keeps.pure a

theorem sources_raise (e : PyError) : Sources posted known (raise e : Proc α) :=
  fun _ => Keeps.throw _

theorem sources_get : Sources posted known (get : Proc World) :=
  fun _ => Keeps.get

theorem sources_ofPy (e : Except PyError α) : Sources posted known (ofPy e) := by
  cases e with
  | ok a => exact sources_pure a
  | error e => exact sources_raise e

theorem Sources.bind {m : Proc α} {f : α → Proc β} (hm : Sources posted known m)
    (hf : ∀ a, Sources posted known (f a)) : Sources posted known (m >>= f) :=
  fun base => Keeps.bind (hm base) fun a => hf a base

theorem sources_ofPy_bind {e : Except PyError α} {f : α → Proc β}
    (h : ∀ a, e = .ok a → Sources posted known (f a)) : Sources posted known (ofPy e >>= f) := by
  cases e with
  | ok a => exact h a rfl
  | error e => exact fun _ _ hw => hw

theorem Sources.ite {p : Prop} [Decidable p] {m m' : Proc α} (h : Sources posted known m)
    (h' : Sources posted known m') : Sources posted known (if p then m else m') :=
  fun base => Keeps.ite (h base) (h' base)

theorem Sources.forEach {action : β → Proc Unit} {xs : List β}
    (h : ∀ x ∈ xs, Sources posted known (action x)) : Sources posted known (forEach action xs) :=
  fun base => Keeps.forEach xs fun x hx => h x hx base

theorem Sources.whenSome {action : β → Proc Unit} {x : Option β}
    (h : ∀ b, x = some b → Sources posted known (action b)) :
    Sources posted known (whenSome x action) :=
  fun base => Keeps.whenSome x fun b hb => h b hb base

theorem Sources.whileTrue {ρ : Type} {halt : Halt} {body : ρ → Proc (Pass ρ α)}
    (h : ∀ p, Sources posted known (body p)) (fuel : ℕ) (p : ρ) :
    Sources posted known (whileTrue halt body fuel p) :=
  fun base => Keeps.whileTrue (fun p => h p base) fuel p

theorem Sources.catching {m : Proc α} {handler : PyError → Proc α} (hm : Sources posted known m)
    (hh : ∀ e, Sources posted known (handler e)) : Sources posted known (catching m handler) := by
  refine fun base => Keeps.tryCatch (hm base) fun halt => ?_
  cases halt with
  | raised e => exact hh e base
  | stopped => exact Keeps.throw _

theorem Sources.attempt {m : Proc α} (hm : Sources posted known m) :
    Sources posted known (attempt m) :=
  .catching (by rw [map_eq_pure_bind]; exact hm.bind fun _ => sources_pure _)
    fun _ => sources_pure _

/-- What leaves the tables, the record and the inbox alone. -/
theorem sources_aside {f : World → World} (hdb : ∀ w, (f w).db = w.db)
    (hlog : ∀ w, w.log <:+ (f w).log) (hevents : ∀ w, (f w).events = w.events) :
    Sources posted known (modify f : Proc PUnit) :=
  fun _ => Keeps.modify fun w hw => hw.aside (hdb w) (hlog w) (hevents w)

/-- What touches a part of the state apart from the tables, the record and the inbox. -/
theorem sources_apart {f : World → World} (hdb : ∀ w, (f w).db = w.db)
    (hlog : ∀ w, (f w).log = w.log) (hevents : ∀ w, (f w).events = w.events) :
    Sources posted known (modify f : Proc PUnit) :=
  sources_aside hdb (fun w => hlog w ▸ List.suffix_rfl) hevents

theorem sources_setState (r : Res) (f : SyncState → SyncState) :
    Sources posted known (setState r f) :=
  sources_apart (fun _ => rfl) (fun _ => rfl) fun _ => rfl

theorem sources_state (r : Res) : Sources posted known (state r) :=
  sources_get.bind fun _ => sources_pure _

theorem sources_nowIso (env : Env) : Sources posted known (nowIso env) :=
  fun _ _ hw => hw.aside rfl List.suffix_rfl rfl

theorem sources_stampNow (env : Env) (source : Source) :
    Sources posted known (stampNow env source) :=
  (sources_nowIso env).bind fun _ => sources_pure _

theorem sources_logEntry (entry : Entry) : Sources posted known (logEntry entry) :=
  sources_aside (fun _ => rfl) (fun _ => List.suffix_cons _ _) fun _ => rfl

/-- What follows a request has the documents of its answer at hand. -/
theorem sources_clientGet_bind {request : Request} {f : Response → Proc α}
    (h : ∀ resp, Sources posted (fun doc => known doc ∨ resp.Carries doc) (f resp)) :
    Sources posted known (clientGet env request >>= f) := by
  intro base w hw
  have hasked : (w.asked env request).AtHand posted known base :=
    hw.aside rfl (List.suffix_cons _ _) rfl
  rw [EStateM.run_bind, clientGet_run]
  cases hresp : env.respond w.tick request with
  | error e => exact hasked
  | ok resp =>
      have hentry : .exchange request (.ok resp) ∈ (w.asked env request).log := by
        rw [World.asked, hresp]
        exact .head _
      have hgiven : (w.asked env request).AtHand posted (fun doc => known doc ∨ resp.Carries doc)
          base :=
        ⟨hasked.sourced, fun doc hdoc => hdoc.elim (hasked.knows doc)
          fun hcarries => .inr ⟨request, resp, hentry, hcarries⟩⟩
      exact (h resp base).conseq (fun _ h => h)
        (fun _ _ h => ⟨h.sourced, fun doc hdoc => h.knows doc (.inl hdoc)⟩)
        (fun _ _ h => ⟨h.sourced, fun doc hdoc => h.knows doc (.inl hdoc)⟩) _ hgiven

theorem sources_clientGet (request : Request) : Sources posted known (clientGet env request) :=
  fun _ w hw => by
    rw [clientGet_run]
    cases env.respond w.tick request <;> exact hw.aside rfl (List.suffix_cons _ _) rfl

/-! ## The writer's calls -/

theorem sources_routeOne {resource : Json} (hdoc : known resource) (env : Env) (source : Source)
    (ownerHint : Option Json) (synthesized : List String) :
    Sources posted known (routeOne env source ownerHint synthesized resource) := by
  intro base w hw
  cases htarget : routeTarget resource ownerHint synthesized with
  | error e =>
      rw [routeOne_raises htarget]
      exact hw.aside rfl List.suffix_rfl rfl
  | ok target =>
      rw [routeOne_run htarget]
      exact hw.write (.route resource ⟨source, env.apiVersion, env.now w.tick⟩ ownerHint synthesized)
        (fun doc hx => Option.some.inj hx ▸ hdoc) trivial rfl List.suffix_rfl rfl

theorem sources_routeEach {resources : List Json} (hdocs : ∀ doc ∈ resources, known doc) (env : Env)
    (source : Source) (ownerHint : Option Json) (synthesized : List String) :
    Sources posted known (forEach (routeOne env source ownerHint synthesized) resources) :=
  .forEach fun doc hdoc => sources_routeOne (hdocs doc hdoc) env source ownerHint synthesized

theorem sources_tombstoneOne (env : Env) (t : Res) (id : String) (evidence : Option Json)
    (reason : Reason) (mergedInto : Option String) :
    Sources posted known (tombstoneOne env t id evidence reason mergedInto) :=
  fun _ w hw => hw.write (.tombstone t id evidence reason mergedInto (env.now w.tick))
    (fun _ hx => by cases hx) trivial rfl (List.suffix_cons _ _) rfl

theorem sources_confirmLiveOne {raw : Json} (hdoc : known raw) (env : Env) (t : Res) (id : String)
    (source : Source) : Sources posted known (confirmLiveOne env t id raw source) :=
  fun _ w hw => hw.write (.confirmLive t id raw ⟨source, env.apiVersion, env.now w.tick⟩)
    (fun _ hx => Option.some.inj hx ▸ hdoc) trivial rfl (List.suffix_cons _ _) rfl

theorem sources_recordMerger {raw : Json} (hdoc : known raw) (env : Env) (id : String)
    (source : Source) : Sources posted known (recordMerger env id raw source) := by
  refine (sources_stampNow env source).bind fun stamp base => Keeps.modify fun w hw => ?_
  split_ifs with hheld
  · exact hw
  · exact hw.write (.recordMerger id raw stamp) (fun _ hx => Option.some.inj hx ▸ hdoc)
      (Option.not_isSome_iff_eq_none.mp hheld) rfl List.suffix_rfl rfl

theorem sources_routePage {body : Json}
    (hitems : ∀ items, pageData body = .ok items → ∀ doc ∈ items, known doc)
    (hincluded : ∀ items, pageIncluded body = .ok items → ∀ doc ∈ items, known doc) (env : Env)
    (status : ℕ) (source : Source) (synthesized : List String) (hint : Option Json) :
    Sources posted known (routePage env status body source synthesized hint) := by
  refine sources_ofPy_bind fun items h => Sources.bind ?_ fun _ =>
    sources_ofPy_bind fun included h' => ?_
  · exact sources_aside (fun _ => rfl) (fun _ => List.suffix_append _ _) fun _ => rfl
  · exact (sources_routeEach (hincluded included h') env source none synthesized).bind fun _ =>
      (sources_routeEach (hitems items h) env source hint synthesized).bind fun _ =>
        sources_pure _

/-- A page handed to the router with the answer it came in. -/
theorem sources_routeAnswer {resp : Response} {body : Json} (hbody : resp.document = .ok body)
    (env : Env) (status : ℕ) (source : Source) (synthesized : List String) (hint : Option Json) :
    Sources posted (fun doc => known doc ∨ resp.Carries doc)
      (routePage env status body source synthesized hint) :=
  sources_routePage
    (fun _ h _ hdoc => .inr ⟨body, hbody, bears_of_pageData h hdoc⟩)
    (fun _ h _ hdoc => .inr ⟨body, hbody, bears_of_pageIncluded h hdoc⟩) env status source
    synthesized hint

theorem sources_enqueueHydrationWith (env : Env) (r : Res) (id reason : String)
    (includes : List String) (delayS : ℕ) :
    Sources posted known (enqueueHydrationWith env r id reason includes delayS) :=
  (sources_nowIso env).bind fun _ => sources_apart (fun _ => rfl) (fun _ => rfl) fun _ => rfl

theorem sources_enqueueHydration (env : Env) (r : Res) (id reason : String) :
    Sources posted known (enqueueHydration env r id reason) :=
  sources_enqueueHydrationWith env r id reason [] 0

end PcoMirror
