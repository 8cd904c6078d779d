import ExpiringCache.Http.Service

/-! # Which request asks for what

    `Asks` is the table of the service: for each operation it names the
    method and the path that ask for it, where the key stands in the path, and
    what has to be read in the body.  A request reaches a handler if and only
    if it stands in the table, and then the handler does what the table
    says. -/

namespace ExpiringCache.Http

open Json

/-! ## Paths and their parts -/

namespace Endpoint

/-- Every text has at least one part. -/
theorem parts_ne_nil (cs : List Char) : parts cs ≠ [] := by
  cases cs with
  | nil => exact List.cons_ne_nil _ _
  | cons c rest =>
      rw [parts]
      split
      · exact List.cons_ne_nil _ _
      · split
        · exact List.cons_ne_nil _ _
        · exact List.cons_ne_nil _ _

/-- A text goes on in its first part until it comes to a slash. -/
theorem parts_cons_of_ne {c : Char} (hc : c ≠ '/') (rest : List Char) :
    ∃ part others, parts rest = part :: others ∧ parts (c :: rest) = (c :: part) :: others := by
  cases hrest : parts rest with
  | nil => exact absurd hrest (parts_ne_nil rest)
  | cons part others =>
      refine ⟨part, others, rfl, ?_⟩
      rw [parts, if_neg hc, hrest]

/-- No part has a slash. -/
theorem noSlash_of_mem_parts (cs : List Char) : ∀ part ∈ parts cs, '/' ∉ part := by
  induction cs with
  | nil => exact fun part hmem => List.mem_singleton.mp hmem ▸ List.not_mem_nil
  | cons c rest ih =>
      by_cases hc : c = '/'
      · rw [parts, if_pos hc]
        intro part hmem
        rcases List.mem_cons.mp hmem with rfl | hmem
        · exact List.not_mem_nil
        · exact ih part hmem
      · obtain ⟨first, others, hrest, hparts⟩ := parts_cons_of_ne hc rest
        rw [hrest] at ih
        rw [hparts]
        intro part hmem
        rcases List.mem_cons.mp hmem with rfl | hmem
        · intro hslash
          rcases List.mem_cons.mp hslash with heq | hslash
          · exact hc heq.symm
          · exact ih first List.mem_cons_self hslash
        · exact ih part (List.mem_cons_of_mem first hmem)

/-- With slashes between them, the parts make up the text. -/
theorem intercalate_parts (cs : List Char) : List.intercalate ['/'] (parts cs) = cs := by
  induction cs with
  | nil => rfl
  | cons c rest ih =>
      by_cases hc : c = '/'
      · rw [parts, if_pos hc, List.intercalate_cons_of_ne_nil (parts_ne_nil rest), ih, hc]
        rfl
      · obtain ⟨first, others, hrest, hparts⟩ := parts_cons_of_ne hc rest
        rw [hrest] at ih
        rw [hparts]
        cases others with
        | nil =>
            rw [List.intercalate_singleton] at ih ⊢
            rw [ih]
        | cons second others =>
            rw [List.intercalate_cons_cons] at ih ⊢
            rw [List.cons_append, List.cons_append, ih]

/-- A text without slashes is its only part. -/
theorem parts_of_noSlash {cs : List Char} (h : '/' ∉ cs) : parts cs = [cs] := by
  induction cs with
  | nil => rfl
  | cons c rest ih =>
      rw [List.mem_cons, not_or] at h
      rw [parts, if_neg (Ne.symm h.1), ih h.2]

/-- What stands before the first slash is the first part. -/
theorem parts_append_slash {cs : List Char} (h : '/' ∉ cs) (rest : List Char) :
    parts (cs ++ '/' :: rest) = cs :: parts rest := by
  induction cs with
  | nil => rw [List.nil_append, parts, if_pos rfl]
  | cons c cs ih =>
      rw [List.mem_cons, not_or] at h
      rw [List.cons_append, parts, if_neg (Ne.symm h.1), ih h.2]

/-- Texts without slashes are the parts of what they make up with slashes
    between them. -/
theorem parts_intercalate {texts : List (List Char)} (hne : texts ≠ [])
    (h : ∀ text ∈ texts, '/' ∉ text) : parts (List.intercalate ['/'] texts) = texts := by
  induction texts with
  | nil => exact absurd rfl hne
  | cons text rest ih =>
      have htext := h text List.mem_cons_self
      cases rest with
      | nil => rw [List.intercalate_singleton, parts_of_noSlash htext]
      | cons next rest =>
          have hrest := ih (List.cons_ne_nil _ _) fun t hmem => h t (List.mem_cons_of_mem _ hmem)
          rw [List.intercalate_cons_cons, List.append_assoc, List.singleton_append,
            parts_append_slash htext, hrest]

/-- A path has the parts that make it up. -/
theorem parts_eq_iff {path : String} {names : List String} (hne : names ≠ []) :
    (parts path.toList).map String.ofList = names ↔
      path = String.intercalate "/" names ∧ ∀ name ∈ names, '/' ∉ name.toList := by
  constructor
  · rintro rfl
    refine ⟨?_, ?_⟩
    · apply String.toList_inj.mp
      rw [String.toList_intercalate, List.map_map]
      have hlists : String.toList ∘ String.ofList = id := funext fun cs => String.toList_ofList
      rw [hlists, List.map_id]
      exact (intercalate_parts path.toList).symm
    · intro name hmem
      obtain ⟨part, hpart, rfl⟩ := List.mem_map.mp hmem
      rw [String.toList_ofList]
      exact noSlash_of_mem_parts _ part hpart
  · rintro ⟨rfl, hnames⟩
    have htexts : ∀ text ∈ names.map String.toList, '/' ∉ text := by
      intro text hmem
      obtain ⟨name, hname, rfl⟩ := List.mem_map.mp hmem
      exact hnames name hname
    have hparts := parts_intercalate (fun h => hne (List.map_eq_nil_iff.mp h)) htexts
    rw [String.toList_intercalate]
    have hback : (names.map String.toList).map String.ofList = names := by
      rw [List.map_map]
      have htext : String.ofList ∘ String.toList = id := funext fun s => String.ofList_toList
      rw [htext, List.map_id]
    exact (congrArg (List.map String.ofList) hparts).trans hback

/-! ## Endpoints -/

/-- The key in the path of an endpoint. -/
def key? : Endpoint → Option String
  | .get key => some key
  | .delete key => some key
  | .lifetime key => some key
  | _ => none

/-- The path of an endpoint. -/
def written : Endpoint → String
  | .put => "/set"
  | .putIfAbsent => "/setnx"
  | .get key => "/get/" ++ key
  | .delete key => "/del/" ++ key
  | .lifetime key => "/expire/" ++ key
  | .keys => "/keys"
  | .clear => "/clear"
  | .stats => "/stats"
  | .health => "/health"

/-- The parts of that path. -/
def names : Endpoint → List String
  | .put => ["", "set"]
  | .putIfAbsent => ["", "setnx"]
  | .get key => ["", "get", key]
  | .delete key => ["", "del", key]
  | .lifetime key => ["", "expire", key]
  | .keys => ["", "keys"]
  | .clear => ["", "clear"]
  | .stats => ["", "stats"]
  | .health => ["", "health"]

theorem names_ne_nil (endpoint : Endpoint) : endpoint.names ≠ [] := by
  cases endpoint with
  | _ => exact List.cons_ne_nil _ _

theorem intercalate_names (endpoint : Endpoint) :
    String.intercalate "/" endpoint.names = endpoint.written := by
  apply String.toList_inj.mp
  cases endpoint with
  | _ => simp [names, written]

/-- Only a key can have slashes. -/
theorem noSlash_names_iff {endpoint : Endpoint} :
    (∀ name ∈ endpoint.names, '/' ∉ name.toList) ↔
      ∀ key, endpoint.key? = some key → '/' ∉ key.toList := by
  cases endpoint with
  | _ => simp [names, key?]

/-- An endpoint is found by its parts. -/
theorem ofPath?_eq_some_iff_names {path : String} {endpoint : Endpoint} :
    ofPath? path = some endpoint ↔
      (parts path.toList).map String.ofList = endpoint.names ∧
        ∀ key, endpoint.key? = some key → key ≠ "" := by
  constructor
  · intro h
    unfold ofPath? at h
    split at h
    case h_10 => cases h
    case h_3 | h_4 | h_5 =>
      rename_i key hparts
      split at h
      · cases h
      · rename_i hempty
        cases h
        refine ⟨hparts, fun k hk => ?_⟩
        cases hk
        exact fun he => hempty (String.isEmpty_iff.mpr he)
    all_goals
      rename_i hparts
      cases h
      exact ⟨hparts, nofun⟩
  · rintro ⟨hparts, hkey⟩
    rw [ofPath?, hparts]
    cases endpoint with
    | get key => exact if_neg fun he => hkey key rfl (String.isEmpty_iff.mp he)
    | delete key => exact if_neg fun he => hkey key rfl (String.isEmpty_iff.mp he)
    | lifetime key => exact if_neg fun he => hkey key rfl (String.isEmpty_iff.mp he)
    | _ => rfl

/-- A path names an endpoint if and only if it is the path of that endpoint,
    where the key, if there is one, is a part that is not empty. -/
theorem ofPath?_eq_some_iff {path : String} {endpoint : Endpoint} :
    ofPath? path = some endpoint ↔
      path = endpoint.written ∧
        ∀ key, endpoint.key? = some key → key ≠ "" ∧ '/' ∉ key.toList := by
  rw [ofPath?_eq_some_iff_names, parts_eq_iff endpoint.names_ne_nil, intercalate_names,
    noSlash_names_iff, and_assoc]
  refine and_congr_right fun _ => ?_
  constructor
  · rintro ⟨hslash, hne⟩ key hkey
    exact ⟨hne key hkey, hslash key hkey⟩
  · intro h
    exact ⟨fun key hkey => (h key hkey).2, fun key hkey => (h key hkey).1⟩

/-- No endpoint answers the question for permission; that is answered
    before. -/
theorem options_not_mem_methods (endpoint : Endpoint) : "OPTIONS" ∉ endpoint.methods := by
  cases endpoint with
  | _ => simp [methods]

end Endpoint

/-! ## Requests -/

namespace Request

/-- The operation that a request asks for, if it reaches a handler and the
    handler can read its key and its body. -/
def operation? (request : Request) : Option Operation :=
  if request.method = "OPTIONS" then none
  else
    match Endpoint.ofPath? (Endpoint.path request.target) with
    | none => none
    | some endpoint =>
        if endpoint.methods.contains request.method then
          (endpoint.operation request).toOption
        else none

/-- The client wants to read, or to have the head of what it would read. -/
def Reads (request : Request) : Prop := request.method = "GET" ∨ request.method = "HEAD"

/-- Behind the given beginning, the rest of the path is one part, which is
    the key with its escapes. -/
def Names (request : Request) (beginning key : String) : Prop :=
  ∃ part, Endpoint.path request.target = beginning ++ part ∧ part ≠ "" ∧
    '/' ∉ part.toList ∧ Percent.decode? part = some key

/-- The client says that the body is JSON, it is not too long, and this is
    read in it. -/
def Sends {α : Type} (request : Request) (read : List Char → Except ReadError (α × List Char))
    (body : α) : Prop :=
  (∃ type, request.contentType = some type ∧ MediaType.isJson type = true) ∧
    request.body.utf8ByteSize ≤ longestBody ∧ readBegin read request.body = .ok body

/-- The table of the service: what a request asks for. -/
inductive Asks (request : Request) : Operation → Prop where
  | put {body : WriteBody} (hmethod : request.method = "PUT")
      (hpath : Endpoint.path request.target = "/set")
      (hbody : request.Sends WriteBody.read body) : Asks request (.put body)
  | putIfAbsent {body : WriteBody} (hmethod : request.method = "PUT")
      (hpath : Endpoint.path request.target = "/setnx")
      (hbody : request.Sends WriteBody.read body) : Asks request (.putIfAbsent body)
  | get {key : String} (hmethod : request.Reads) (hpath : request.Names "/get/" key) :
      Asks request (.get key)
  | delete {key : String} (hmethod : request.method = "DELETE")
      (hpath : request.Names "/del/" key) : Asks request (.delete key)
  | lifetime {key : String} (hmethod : request.Reads) (hpath : request.Names "/expire/" key) :
      Asks request (.lifetime key)
  | setLifetime {key : String} {body : LifetimeBody} (hmethod : request.method = "PUT")
      (hpath : request.Names "/expire/" key) (hbody : request.Sends LifetimeBody.read body) :
      Asks request (.setLifetime key body.ttl)
  | keys (hmethod : request.Reads) (hpath : Endpoint.path request.target = "/keys") :
      Asks request .keys
  | clear (hmethod : request.method = "POST")
      (hpath : Endpoint.path request.target = "/clear") : Asks request .clear
  | stats (hmethod : request.Reads) (hpath : Endpoint.path request.target = "/stats") :
      Asks request .stats
  | health (hmethod : request.Reads) (hpath : Endpoint.path request.target = "/health") :
      Asks request .health

variable {request : Request}

theorem reads_iff : request.Reads ↔ request.method ∈ ["GET", "HEAD"] := by
  simp [Reads]

/-- What is read of a body is what the client sends. -/
theorem readBody_eq_ok_iff {α : Type}
    {read : List Char → Except ReadError (α × List Char)} {body : α} :
    readBody request read = .ok body ↔ request.Sends read body := by
  have htype : (request.contentType.all fun type => !MediaType.isJson type) = true ↔
      ¬∃ type, request.contentType = some type ∧ MediaType.isJson type = true := by
    cases request.contentType with
    | none => simp
    | some type => simp
  unfold readBody Sends
  split
  · rename_i hnone
    exact ⟨nofun, fun h => absurd h.1 (htype.mp hnone)⟩
  · rename_i hsome
    have hjson := Decidable.not_not.mp (mt htype.mpr hsome)
    split
    · rename_i hlong
      exact ⟨nofun, fun h => absurd h.2.1 (Nat.not_le.mpr hlong)⟩
    · rename_i hshort
      cases hread : readBegin read request.body with
      | ok record =>
          refine ⟨fun h => ⟨hjson, Nat.not_lt.mp hshort, ?_⟩, fun h => ?_⟩
          · exact congrArg Except.ok (Except.ok.inj h)
          · exact congrArg Except.ok (Except.ok.inj h.2.2)
      | error e => exact ⟨nofun, fun h => nomatch h.2.2⟩

/-- What is read of a key is what its escapes stand for. -/
theorem readKey_eq_ok_iff {part key : String} :
    readKey part = .ok key ↔ Percent.decode? part = some key := by
  rw [readKey]
  cases Percent.decode? part with
  | none => exact ⟨nofun, nofun⟩
  | some text =>
      exact ⟨fun h => congrArg some (Except.ok.inj h), fun h => congrArg _ (Option.some.inj h)⟩

/-- A request reaches a handler if there is an endpoint at its path that
    answers its method and can read it. -/
theorem operation?_eq_some_iff_endpoint {op : Operation} :
    request.operation? = some op ↔
      ∃ endpoint, Endpoint.ofPath? (Endpoint.path request.target) = some endpoint ∧
        request.method ∈ endpoint.methods ∧ endpoint.operation request = .ok op := by
  have htoOption : ∀ result : Except Rejection Operation,
      result.toOption = some op ↔ result = .ok op := by
    intro result
    cases result with
    | error rejection => exact ⟨nofun, nofun⟩
    | ok read => exact ⟨fun h => congrArg _ (Option.some.inj h), fun h => h ▸ rfl⟩
  unfold operation?
  constructor
  · intro h
    split at h
    · cases h
    · split at h
      · cases h
      · rename_i endpoint hendpoint
        split at h
        · rename_i hmethod
          exact ⟨endpoint, hendpoint, List.contains_iff_mem.mp hmethod, (htoOption _).mp h⟩
        · cases h
  · rintro ⟨endpoint, hendpoint, hmem, hop⟩
    have hmethod : request.method ≠ "OPTIONS" :=
      fun h => endpoint.options_not_mem_methods (h ▸ hmem)
    rw [if_neg hmethod, hendpoint]
    exact (if_pos (List.contains_iff_mem.mpr hmem)).trans ((htoOption _).mpr hop)

/-- What comes of one step after another is what comes of the second. -/
theorem bind_eq_ok_iff {α β : Type} {first : Except Rejection α}
    {next : α → Except Rejection β} {b : β} :
    (first >>= next) = .ok b ↔ ∃ a, first = .ok a ∧ next a = .ok b := by
  cases first with
  | error rejection => exact ⟨nofun, nofun⟩
  | ok a => exact ⟨fun h => ⟨a, rfl, h⟩, fun ⟨_, ha, h⟩ => Except.ok.inj ha ▸ h⟩

/-- A path names a key if it is that of a keyed endpoint whose key can be
    read. -/
theorem names_iff (keyed : String → Endpoint) {beginning key : String}
    (hwritten : ∀ part, (keyed part).written = beginning ++ part)
    (hkeyed : ∀ part, (keyed part).key? = some part) :
    request.Names beginning key ↔
      ∃ part, Endpoint.ofPath? (Endpoint.path request.target) = some (keyed part) ∧
        readKey part = .ok key := by
  refine exists_congr fun part => ?_
  rw [Endpoint.ofPath?_eq_some_iff, hwritten, hkeyed, readKey_eq_ok_iff, and_assoc]
  refine and_congr_right fun _ => ?_
  constructor
  · rintro ⟨hne, hslash, hdecoded⟩
    exact ⟨fun key hkey => Option.some.inj hkey ▸ ⟨hne, hslash⟩, hdecoded⟩
  · rintro ⟨hpart, hdecoded⟩
    exact ⟨(hpart part rfl).1, (hpart part rfl).2, hdecoded⟩

/-- What a request is understood to ask for stands in the table. -/
theorem asks_of_operation? {op : Operation} (h : request.operation? = some op) :
    request.Asks op := by
  obtain ⟨endpoint, hendpoint, hmethod, hop⟩ := operation?_eq_some_iff_endpoint.mp h
  have hpath := (Endpoint.ofPath?_eq_some_iff.mp hendpoint).1
  cases endpoint with
  | put =>
      obtain ⟨body, hbody, hok⟩ := bind_eq_ok_iff.mp hop
      cases hok
      exact .put (List.mem_singleton.mp hmethod) hpath (readBody_eq_ok_iff.mp hbody)
  | putIfAbsent =>
      obtain ⟨body, hbody, hok⟩ := bind_eq_ok_iff.mp hop
      cases hok
      exact .putIfAbsent (List.mem_singleton.mp hmethod) hpath (readBody_eq_ok_iff.mp hbody)
  | get part =>
      obtain ⟨key, hread, hok⟩ := bind_eq_ok_iff.mp hop
      cases hok
      have hnames : request.Names "/get/" key :=
        (names_iff .get (fun _ => rfl) fun _ => rfl).mpr ⟨part, hendpoint, hread⟩
      exact .get (reads_iff.mpr hmethod) hnames
  | delete part =>
      obtain ⟨key, hread, hok⟩ := bind_eq_ok_iff.mp hop
      cases hok
      have hnames : request.Names "/del/" key :=
        (names_iff .delete (fun _ => rfl) fun _ => rfl).mpr ⟨part, hendpoint, hread⟩
      exact .delete (List.mem_singleton.mp hmethod) hnames
  | lifetime part =>
      -- the one endpoint where the method decides
      obtain ⟨key, hread, hok⟩ := bind_eq_ok_iff.mp hop
      have hnames : request.Names "/expire/" key :=
        (names_iff .lifetime (fun _ => rfl) fun _ => rfl).mpr ⟨part, hendpoint, hread⟩
      split at hok
      · rename_i hput
        obtain ⟨body, hbody, hok⟩ := bind_eq_ok_iff.mp hok
        cases hok
        exact .setLifetime hput hnames (readBody_eq_ok_iff.mp hbody)
      · rename_i hput
        cases hok
        have hreads : request.Reads := by
          simp only [Endpoint.methods, List.mem_cons, List.not_mem_nil, or_false] at hmethod
          rcases hmethod with hget | hhead | hwrites
          · exact .inl hget
          · exact .inr hhead
          · exact absurd hwrites hput
        exact .lifetime hreads hnames
  | keys =>
      cases hop
      exact .keys (reads_iff.mpr hmethod) hpath
  | clear =>
      cases hop
      exact .clear (List.mem_singleton.mp hmethod) hpath
  | stats =>
      cases hop
      exact .stats (reads_iff.mpr hmethod) hpath
  | health =>
      cases hop
      exact .health (reads_iff.mpr hmethod) hpath

/-- What stands in the table is understood. -/
theorem Asks.operation?_eq {op : Operation} (h : request.Asks op) :
    request.operation? = some op := by
  rw [operation?_eq_some_iff_endpoint]
  have hplain : ∀ {endpoint : Endpoint}, endpoint.key? = none →
      Endpoint.path request.target = endpoint.written →
      Endpoint.ofPath? (Endpoint.path request.target) = some endpoint := by
    intro endpoint hkey hpath
    refine Endpoint.ofPath?_eq_some_iff.mpr ⟨hpath, fun key hsome => ?_⟩
    rw [hkey] at hsome
    cases hsome
  cases h with
  | put hmethod hpath hbody =>
      exact ⟨.put, hplain rfl hpath, List.mem_singleton.mpr hmethod,
        bind_eq_ok_iff.mpr ⟨_, readBody_eq_ok_iff.mpr hbody, rfl⟩⟩
  | putIfAbsent hmethod hpath hbody =>
      exact ⟨.putIfAbsent, hplain rfl hpath, List.mem_singleton.mpr hmethod,
        bind_eq_ok_iff.mpr ⟨_, readBody_eq_ok_iff.mpr hbody, rfl⟩⟩
  | get hmethod hpath =>
      obtain ⟨part, hendpoint, hread⟩ :=
        (names_iff .get (fun _ => rfl) fun _ => rfl).mp hpath
      exact ⟨.get part, hendpoint, reads_iff.mp hmethod, bind_eq_ok_iff.mpr ⟨_, hread, rfl⟩⟩
  | delete hmethod hpath =>
      obtain ⟨part, hendpoint, hread⟩ :=
        (names_iff .delete (fun _ => rfl) fun _ => rfl).mp hpath
      exact ⟨.delete part, hendpoint, List.mem_singleton.mpr hmethod,
        bind_eq_ok_iff.mpr ⟨_, hread, rfl⟩⟩
  | lifetime hmethod hpath =>
      obtain ⟨part, hendpoint, hread⟩ :=
        (names_iff .lifetime (fun _ => rfl) fun _ => rfl).mp hpath
      have hmem := reads_iff.mp hmethod
      have hput : request.method ≠ "PUT" := by
        intro hput
        rw [hput] at hmem
        exact absurd hmem (by decide)
      exact ⟨.lifetime part, hendpoint, List.mem_append_left ["PUT"] hmem,
        bind_eq_ok_iff.mpr ⟨_, hread, if_neg hput⟩⟩
  | setLifetime hmethod hpath hbody =>
      obtain ⟨part, hendpoint, hread⟩ :=
        (names_iff .lifetime (fun _ => rfl) fun _ => rfl).mp hpath
      have hmem : request.method ∈ ["GET", "HEAD", "PUT"] := by
        rw [hmethod]
        decide
      exact ⟨.lifetime part, hendpoint, hmem, bind_eq_ok_iff.mpr ⟨_, hread, (if_pos hmethod).trans
        (bind_eq_ok_iff.mpr ⟨_, readBody_eq_ok_iff.mpr hbody, rfl⟩)⟩⟩
  | keys hmethod hpath => exact ⟨.keys, hplain rfl hpath, reads_iff.mp hmethod, rfl⟩
  | clear hmethod hpath => exact ⟨.clear, hplain rfl hpath, List.mem_singleton.mpr hmethod, rfl⟩
  | stats hmethod hpath => exact ⟨.stats, hplain rfl hpath, reads_iff.mp hmethod, rfl⟩
  | health hmethod hpath => exact ⟨.health, hplain rfl hpath, reads_iff.mp hmethod, rfl⟩

/-- A request reaches a handler with an operation if and only if it stands in
    the table with it. -/
theorem operation?_eq_some_iff {op : Operation} :
    request.operation? = some op ↔ request.Asks op :=
  ⟨asks_of_operation?, Asks.operation?_eq⟩

/-- A request asks for one thing only. -/
theorem Asks.eq {op op' : Operation} (h : request.Asks op) (h' : request.Asks op') : op = op' :=
  Option.some.inj (h.operation?_eq.symm.trans h'.operation?_eq)

end Request

end ExpiringCache.Http
