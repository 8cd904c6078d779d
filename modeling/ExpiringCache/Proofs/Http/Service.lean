import ExpiringCache.Proofs.Http.Operations
import ExpiringCache.Proofs.Http.Spelling
import ExpiringCache.Proofs.Janitor.Session

/-! # A service is a front of its cache

    While a service runs, requests come in, the janitor sweeps and the wall
    clock is set.  All of it together does to the cache what a session does
    in which each request that reaches a handler makes the one call that is
    meant by it, and each other request makes none.  So whatever is true of
    sessions is true of the cache behind a service. -/

namespace ExpiringCache.Http

open Json

/-! ## Responses on their way -/

/-- The response as the client gets it. -/
def Request.sent (request : Request) (response : Response) : Response :=
  (if request.method = "HEAD" then response.withoutBody else response).withHeaders
    Service.sharingHeaders

/-- A text is sent as JSON; who asks for the head of it gets the headers
    alone. -/
theorem Request.sent_json (request : Request) (status : Nat) (text : String) :
    request.sent (.json status text) =
      ⟨status, if request.method = "HEAD" then .empty else .json text,
        [("content-type", "application/json"), ("content-length", toString text.utf8ByteSize)] ++
          Service.sharingHeaders⟩ := by
  unfold sent
  split
  · rfl
  · rfl

namespace Service

variable (s : Service) {request : Request}

/-- A request that reaches a handler is answered by what its operation comes
    to. -/
theorem answer_of_operation {op : Operation} (h : request.operation? = some op) :
    s.answer request = (request.sent (s.perform op).1, (s.perform op).2) := by
  obtain ⟨endpoint, hendpoint, hmem, hop⟩ := Request.operation?_eq_some_iff_endpoint.mp h
  have hoptions : request.method ≠ "OPTIONS" :=
    fun heq => endpoint.options_not_mem_methods (heq ▸ hmem)
  have hmethod : endpoint.methods.contains request.method = true :=
    List.contains_iff_mem.mpr hmem
  simp only [answer, answerAt, Request.sent, if_neg hoptions, hendpoint, hmethod, hop, if_true]

/-- Any other request leaves the service as it is. -/
theorem answer_of_none (h : request.operation? = none) : (s.answer request).2 = s := by
  by_cases hoptions : request.method = "OPTIONS"
  · simp only [answer, if_pos hoptions]
  · cases hendpoint : Endpoint.ofPath? (Endpoint.path request.target) with
    | none => simp only [answer, if_neg hoptions, hendpoint]
    | some endpoint =>
        have hanswer : (s.answer request).2 = (s.answerAt endpoint request).2 := by
          simp only [answer, if_neg hoptions, hendpoint]
        rw [hanswer, answerAt]
        by_cases hmethod : endpoint.methods.contains request.method = true
        · rw [if_pos hmethod]
          cases hread : endpoint.operation request with
          | error rejection => rfl
          | ok op =>
              -- the request would have reached the handler
              simp only [Request.operation?, if_neg hoptions, hendpoint, if_pos hmethod, hread]
                at h
              cases h
        · rw [if_neg hmethod]

/-- What a request comes to that stands in the table. -/
theorem answer_comes {op : Operation} (h : request.Asks op) :
    ∃ status text, (s.answer request).1 = request.sent (.json status text) ∧
      op.Comes s.defaultTtl s.cache status text (s.answer request).2.cache := by
  obtain ⟨status, text, hresponse, hcomes⟩ := op.comes s.defaultTtl s.cache
  rw [s.answer_of_operation h.operation?_eq]
  exact ⟨status, text, congrArg request.sent hresponse, hcomes⟩

/-- A request that does not stand there leaves the service as it is. -/
theorem answer_of_asks_nothing (h : ∀ op, ¬request.Asks op) : (s.answer request).2 = s := by
  apply s.answer_of_none
  rw [Option.eq_none_iff_forall_ne_some]
  exact fun op hop => h op (Request.asks_of_operation? hop)

end Service

/-! ## Runs -/

/-- Something that happens to a service. -/
inductive Happening where
  /-- A request comes in. -/
  | request (request : Request)
  /-- The janitor sweeps. -/
  | sweep (order : VisitingOrder String)
  /-- The wall clock is set. -/
  | setWall (wall : Int)

/-- What happens to the cache then, as moves of a session. -/
inductive Happening.Moves (defaultTtl : Duration) :
    Happening → List (Move String Value) → Prop where
  /-- The call is made that the request asks for. -/
  | calls {request : Request} {op : Operation} {call : ExpiringCache.Request String Value}
      (hasks : request.Asks op) (hmakes : op.Makes defaultTtl call) :
      Moves defaultTtl (.request request) [.begin call]
  /-- The request asks for no call, or for one that is refused. -/
  | quiet {request : Request}
      (h : ∀ op call, request.Asks op → ¬op.Makes defaultTtl call) :
      Moves defaultTtl (.request request) []
  | sweep (order : VisitingOrder String) : Moves defaultTtl (.sweep order) [.sweep order]
  | setWall (wall : Int) : Moves defaultTtl (.setWall wall) [.setWall wall]

namespace Service

/-- The service after something has happened. -/
def after (s : Service) : Happening → Service
  | .request request => (s.answer request).2
  | .sweep order => { s with cache := s.cache.swept order }
  | .setWall wall => { s with cache := { s.cache with clock := s.cache.clock.setTo wall } }

/-- The service after several things have happened. -/
def run (s : Service) (happenings : List Happening) : Service := happenings.foldl after s

/-- The session of its cache; no call stays open. -/
def session (s : Service) : Session String Value := ⟨s.cache, [], []⟩

/-- The default lifetime is never changed. -/
theorem defaultTtl_after (s : Service) (happening : Happening) :
    (s.after happening).defaultTtl = s.defaultTtl := by
  cases happening with
  | request request =>
      rw [after]
      cases hop : request.operation? with
      | none => rw [s.answer_of_none hop]
      | some op =>
          rw [s.answer_of_operation hop]
          rfl
  | sweep order => rfl
  | setWall wall => rfl

/-- What a request does to the cache is one move of the session, or none. -/
theorem session_answer (s : Service) (request : Request) :
    ∃ moves, Happening.Moves s.defaultTtl (.request request) moves ∧
      (s.answer request).2.session = s.session.run moves := by
  by_cases hasks : ∃ op, request.Asks op
  · obtain ⟨op, hop⟩ := hasks
    obtain ⟨status, text, -, hcomes⟩ := s.answer_comes hop
    rcases hcomes.makes with ⟨call, reply, hmakes, hreply⟩ | ⟨hnone, hcache⟩
    · refine ⟨[.begin call], .calls hop hmakes, ?_⟩
      rw [session, session, Session.run, List.foldl_cons, List.foldl_nil, Session.step, hreply]
      rfl
    · refine ⟨[], .quiet fun op' call hop' => ?_, ?_⟩
      · rw [← hop.eq hop']
        exact hnone call
      · rw [session, hcache]
        rfl
  · have hnone : ∀ op, ¬request.Asks op := fun op hop => hasks ⟨op, hop⟩
    refine ⟨[], .quiet fun op _ hop => absurd hop (hnone op), ?_⟩
    rw [s.answer_of_asks_nothing hnone]
    rfl

/-- So is everything else that happens to a service. -/
theorem session_after (s : Service) (happening : Happening) :
    ∃ moves, happening.Moves s.defaultTtl moves ∧
      (s.after happening).session = s.session.run moves := by
  cases happening with
  | request request => exact s.session_answer request
  | sweep order => exact ⟨_, .sweep order, rfl⟩
  | setWall wall => exact ⟨_, .setWall wall, rfl⟩

theorem defaultTtl_run (s : Service) (happenings : List Happening) :
    (s.run happenings).defaultTtl = s.defaultTtl := by
  induction happenings generalizing s with
  | nil => rfl
  | cons happening rest ih => exact (ih (s.after happening)).trans (s.defaultTtl_after happening)

/-- The moves of a run are those of what happens in it, one after another. -/
theorem session_run (s : Service) (happenings : List Happening) :
    ∃ moves, List.Forall₂ (Happening.Moves s.defaultTtl) happenings moves ∧
      (s.run happenings).session = s.session.run moves.flatten := by
  induction happenings generalizing s with
  | nil => exact ⟨[], .nil, rfl⟩
  | cons happening rest ih =>
      obtain ⟨first, hfirst, hafter⟩ := s.session_after happening
      obtain ⟨moves, hmoves, hrun⟩ := ih (s.after happening)
      rw [s.defaultTtl_after] at hmoves
      refine ⟨first :: moves, .cons hfirst hmoves, ?_⟩
      rw [List.flatten_cons, Session.run_append, ← hafter]
      exact hrun

/-- The cache of a service is at every moment what a session makes of it in
    which each request has made its one call.  A request that stands in the
    table asks for what it says, if it says something plainly; it is answered
    with a status and a text, or with the head alone, and these are right, and
    so is the cache behind them. -/
theorem simulates_calls (s : Service) (before : List Happening) {request : Request}
    {op : Operation} (hasks : request.Asks op) :
    (∃ moves, List.Forall₂ (Happening.Moves s.defaultTtl) before moves ∧
        (s.run before).session = s.session.run moves.flatten) ∧
      (∀ said, request.Says said → said = op) ∧
      ∃ status text,
        ((s.run before).answer request).1 =
          ⟨status, if request.method = "HEAD" then .empty else .json text,
            [("content-type", "application/json"),
              ("content-length", toString text.utf8ByteSize)] ++ sharingHeaders⟩ ∧
        op.Handled s.defaultTtl (s.run before).cache status text
          ((s.run before).answer request).2.cache := by
  refine ⟨s.session_run before, fun said hsaid => hsaid.asks.eq hasks, ?_⟩
  obtain ⟨status, text, hanswer, hcomes⟩ := (s.run before).answer_comes hasks
  rw [s.defaultTtl_run before] at hcomes
  exact ⟨status, text, hanswer.trans (request.sent_json status text), hcomes.handled⟩

/-- A service whose entries last three seconds unless a client chooses. -/
def brief : Service := ⟨.new 2 (.unread 100), ⟨3000000000, by decide⟩⟩

/-- A client stores a value without choosing. -/
def keeping : Request :=
  ⟨"PUT", "/set", some "application/json",
    "\x7b\"key\":\"a b\",\"value\":1,\"ttl_ms\":null\x7d"⟩

/-- Four seconds go by. -/
def lapse : List Happening := [.request keeping, .setWall 4100]

/-- Another one asks for the value, or for the head of it. -/
def asking : Request := ⟨"HEAD", "/get/a%20b", none, ""⟩

/-- Another one asks which keys there are. -/
def listing : Request := ⟨"GET", "http://cache/keys?all", none, ""⟩

/-- Another one deletes the key, for which a value has been stored again. -/
def deleting : Request := ⟨"DELETE", "/del/a%20b", none, ""⟩

/-- The value that is stored again. -/
def renewal : List Happening :=
  [.request ⟨"PUT", "/setnx", some "application/json; charset=utf-8",
    "\x7b\"key\":\"a b\",\"value\":[2,\x7b\"x\":\"\\n\"\x7d],\"ttl_ms\":5000\x7d"⟩]

/-- What the clients say is what they are understood to ask for.  An expired
    value is not found, and its key is still listed; a live one is told when it
    is deleted. -/
theorem simulates_calls_of_lapse :
    (keeping.Says (.put ⟨"a b", .int 1, none⟩) ∧ keeping.Asks (.put ⟨"a b", .int 1, none⟩) ∧
      ∀ said, keeping.Says said → said = .put ⟨"a b", .int 1, none⟩) ∧
    (asking.Asks (.get "a b") ∧ ((brief.run lapse).answer asking).1.status = 404 ∧
      ((brief.run lapse).answer asking).1.body = .empty ∧
      Operation.Untouched (brief.run lapse).cache ((brief.run lapse).answer asking).2.cache) ∧
    (listing.Asks .keys ∧ ((brief.run lapse).answer listing).1.body =
      .json "\x7b\"keys\":[\"a b\"],\"size\":1\x7d") ∧
    (deleting.Says (.delete "a b") ∧ ((brief.run (lapse ++ renewal)).answer deleting).1.body =
      .json "\x7b\"key\":\"a b\",\"value\":[2,\x7b\"x\":\"\\n\"\x7d]\x7d" ∧
      ((brief.run (lapse ++ renewal)).answer deleting).2.cache =
        ((brief.run (lapse ++ renewal)).cache.remove ["a b"]).2) := by
  refine ⟨?_, ?_, ?_, ?_⟩
  · have hbody : keeping.Brings (WriteBody.text "a b" (Value.int 1).render (some none)) :=
      ⟨rfl, by decide +kernel, by decide +kernel⟩
    have hone : StandsFor (Value.int 1).render (.int 1) :=
      (Value.Simple.whole (by decide)).standsFor
    have htold : keeping.Says (.put ⟨"a b", .int 1, none⟩) :=
      .put rfl rfl hbody hone fun ms hms => nomatch hms
    exact ⟨htold, htold.asks, (simulates_calls brief [] htold.asks).2.1⟩
  · have hasks : asking.Asks (.get "a b") := .get (.inr rfl) ⟨"a%20b", by decide +kernel⟩
    have hdead : (brief.run lapse).cache.store.live? (brief.run lapse).cache.now "a b" = none := by
      decide +kernel
    obtain ⟨-, -, status, text, hanswer, hhandled⟩ := simulates_calls brief lapse hasks
    have hstatus : status = 404 := hhandled.missing.mpr ⟨"a b", rfl, by decide +kernel, hdead⟩
    refine ⟨hasks, ?_, ?_, hhandled.unserved ?_⟩
    · rw [hanswer, hstatus]
    · rw [hanswer]
      show (if asking.method = "HEAD" then Body.empty else .json text) = .empty
      exact if_pos rfl
    · rw [hstatus]
      decide
  · have hasks : listing.Asks .keys := .keys (.inl rfl) (by decide +kernel)
    obtain ⟨-, -, status, text, hanswer, hhandled⟩ := simulates_calls brief lapse hasks
    refine ⟨hasks, ?_⟩
    obtain ⟨ks, -, hstored, hlength, htext, -⟩ := hhandled.listed rfl
    have hsize : (brief.run lapse).cache.size = 1 := by decide +kernel
    have hmem : "a b" ∈ ks := (hstored "a b").mpr (by decide +kernel)
    obtain ⟨key, rfl⟩ := List.length_eq_one_iff.mp (hlength.trans hsize)
    have htold : keyListText ["a b"] = "\x7b\"keys\":[\"a b\"],\"size\":1\x7d" := by
      decide +kernel
    rw [hanswer, htext, ← List.mem_singleton.mp hmem, htold]
    show (if listing.method = "HEAD" then Body.empty else _) = _
    exact if_neg (by decide)
  · have hspace : (String.utf8EncodeChar ' ').flatMap (Percent.escapedByte false) =
        ['%', '2', '0'] := by decide
    have hspells : Percent.Spells (['%', '2', '0'] ++ ['b']) [' ', 'b'] :=
      hspace ▸ .escaped false (.plain (by decide) .nil)
    have htold : deleting.Says (.delete "a b") :=
      .delete rfl ⟨"a%20b", rfl, by decide, by simp, .plain (by decide) hspells⟩
    have hasks := htold.asks
    obtain ⟨-, -, status, text, hanswer, hhandled⟩ := simulates_calls brief (lapse ++ renewal) hasks
    have hstatus : ((brief.run (lapse ++ renewal)).answer deleting).1.status = 200 := by
      decide +kernel
    refine ⟨htold, by decide +kernel, ?_⟩
    rw [hanswer] at hstatus
    obtain ⟨call, reply, hmakes, hreply, -⟩ := hhandled.served hstatus nofun
    cases hmakes.2
    have hremoved : ∀ c : Cache String Value,
        (c.begin (.remove ["a b"])).2 = (c.remove ["a b"]).2 := fun _ => rfl
    rw [← hremoved, hreply]

end Service

end ExpiringCache.Http
