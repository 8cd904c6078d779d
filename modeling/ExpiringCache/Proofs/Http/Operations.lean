import ExpiringCache.Proofs.Computation.Commission
import ExpiringCache.Proofs.Http.Texts
import ExpiringCache.Proofs.Json.Quoted

/-! # What becomes of an operation

    A handler looks at the key, then at the lifetime, and after that makes
    one call on the cache.  `Comes` says once what this can come to: the
    operation is refused before the cache is touched, or the key that was
    asked for is not live, or the reply to the call is served.  All that is
    claimed of a response, its status, its text and the cache behind it, is
    read off `Comes`. -/

namespace ExpiringCache.Http

open Json

/-! ## Checks -/

/-- A key that is neither empty nor longer than 256 bytes. -/
def ValidKey (key : String) : Prop := key ≠ "" ∧ key.utf8ByteSize ≤ 256

instance : DecidablePred ValidKey := fun _ => inferInstanceAs (Decidable (_ ∧ _))

/-- A number of milliseconds for which there is a duration: any signed word
    but the least. -/
def ValidTtl (ms : Int) : Prop := -9223372036854775807 ≤ ms ∧ ms ≤ 9223372036854775807

/-- What is wrong with a lifetime of some milliseconds. -/
def ttlComplaint? (ms : Int) : Option String :=
  if (Duration.ofMillis? ms).isSome then none
  else some ("ttl_ms " ++ toString ms ++ " is out of range")

/-- A lifetime is complained about if and only if there is no such
    duration. -/
theorem ttlComplaint?_eq_some {ms : Int} {complaint : String} :
    ttlComplaint? ms = some complaint ↔
      ¬ValidTtl ms ∧ "ttl_ms " ++ toString ms ++ " is out of range" = complaint := by
  have hrange : (Duration.ofMillis? ms).isSome = true ↔ ValidTtl ms := Duration.ofMillis?_isSome
  rw [← hrange, ttlComplaint?]
  split
  · rename_i hsome
    exact ⟨nofun, fun h => absurd hsome h.1⟩
  · rename_i hnone
    exact ⟨fun h => ⟨hnone, Option.some.inj h⟩, fun h => congrArg some h.2⟩

/-- A lifetime is not complained of just if it is in range. -/
theorem ttlComplaint?_eq_none {ms : Int} : ttlComplaint? ms = none ↔ ValidTtl ms := by
  rw [Option.eq_none_iff_forall_ne_some]
  constructor
  · intro h
    by_contra hout
    exact h _ (ttlComplaint?_eq_some.mpr ⟨hout, rfl⟩)
  · intro h complaint hsome
    exact (ttlComplaint?_eq_some.mp hsome).1 h

/-- What the service says of a key. -/
theorem keyComplaint?_cases (key : String) :
    (ValidKey key ∧ keyComplaint? key = none) ∨
      (key = "" ∧ keyComplaint? key = some "Key cannot be empty") ∨
      (256 < key.utf8ByteSize ∧
        keyComplaint? key = some "Key exceeds maximum length of 256 bytes") := by
  unfold keyComplaint?
  split
  · rename_i hempty
    exact .inr (.inl ⟨String.isEmpty_iff.mp hempty, rfl⟩)
  · rename_i hempty
    split
    · rename_i hlong
      exact .inr (.inr ⟨hlong, congrArg some (by decide)⟩)
    · rename_i hshort
      exact .inl ⟨⟨fun h => hempty (String.isEmpty_iff.mpr h), Nat.le_of_not_lt hshort⟩, rfl⟩

/-- A key is not complained of just if it is neither empty nor too long. -/
theorem keyComplaint?_eq_none {key : String} : keyComplaint? key = none ↔ ValidKey key := by
  rcases keyComplaint?_cases key with ⟨hvalid, hnone⟩ | ⟨rfl, hsome⟩ | ⟨hlong, hsome⟩
  · exact iff_of_true hnone hvalid
  · rw [hsome]
    exact iff_of_false nofun fun hvalid => hvalid.1 rfl
  · rw [hsome]
    exact iff_of_false nofun fun hvalid => Nat.not_le.mpr hlong hvalid.2

namespace Operation

/-- The key that an operation is about. -/
def key? : Operation → Option String
  | .put body => some body.key
  | .putIfAbsent body => some body.key
  | .get key => some key
  | .delete key => some key
  | .lifetime key => some key
  | .setLifetime key _ => some key
  | .keys => none
  | .clear => none
  | .stats => none
  | .health => none

/-- The milliseconds that a client gives as a lifetime; none if they are
    absent or `null` in the body. -/
def givenTtl? : Operation → Option Int
  | .put body => body.ttl
  | .putIfAbsent body => body.ttl
  | .setLifetime _ ms => some ms
  | _ => none

/-- An operation with which nothing is wrong. -/
structure Acceptable (op : Operation) : Prop where
  key : ∀ key, op.key? = some key → ValidKey key
  ttl : ∀ ms, op.givenTtl? = some ms → ValidTtl ms

/-- What is wrong with an operation, in the words of the service.  The key is
    looked at first. -/
inductive Complaint (op : Operation) : String → Prop where
  | emptyKey (hkey : op.key? = some "") : Complaint op "Key cannot be empty"
  | longKey {key : String} (hkey : op.key? = some key) (hlong : 256 < key.utf8ByteSize) :
      Complaint op "Key exceeds maximum length of 256 bytes"
  | ttl {ms : Int} (hkey : ∀ key, op.key? = some key → ValidKey key)
      (hms : op.givenTtl? = some ms) (hout : ¬ValidTtl ms) :
      Complaint op ("ttl_ms " ++ toString ms ++ " is out of range")

/-- What the checks of the service come to. -/
def complaint? (op : Operation) : Option String :=
  (op.key?.bind keyComplaint?).or (op.givenTtl?.bind ttlComplaint?)

/-- An operation is not complained of just if its key and its lifetime can be
    used. -/
theorem complaint?_eq_none {op : Operation} : op.complaint? = none ↔ op.Acceptable := by
  rw [complaint?, Option.or_eq_none_iff, Option.bind_eq_none_iff, Option.bind_eq_none_iff]
  constructor
  · rintro ⟨hkey, httl⟩
    exact ⟨fun key hmem => keyComplaint?_eq_none.mp (hkey key hmem),
      fun ms hmem => ttlComplaint?_eq_none.mp (httl ms hmem)⟩
  · rintro ⟨hkey, httl⟩
    exact ⟨fun key hmem => keyComplaint?_eq_none.mpr (hkey key hmem),
      fun ms hmem => ttlComplaint?_eq_none.mpr (httl ms hmem)⟩

/-- What the checks complain about is wrong. -/
theorem complaint_of_complaint? {op : Operation} {complaint : String}
    (h : op.complaint? = some complaint) : op.Complaint complaint := by
  have hlifetime : (∀ key, op.key? = some key → ValidKey key) →
      op.givenTtl?.bind ttlComplaint? = some complaint → op.Complaint complaint := by
    intro hvalid hbind
    obtain ⟨ms, hms, hcomplaint⟩ := Option.bind_eq_some_iff.mp hbind
    obtain ⟨hout, rfl⟩ := ttlComplaint?_eq_some.mp hcomplaint
    exact .ttl hvalid hms hout
  rw [complaint?] at h
  cases hkey : op.key? with
  | none =>
      rw [hkey, Option.bind_none, Option.none_or] at h
      exact hlifetime (fun key hsome => nomatch hkey.symm.trans hsome) h
  | some key =>
      rw [hkey, Option.bind_some] at h
      rcases keyComplaint?_cases key with ⟨hvalid, hnone⟩ | ⟨rfl, hempty⟩ | ⟨hlong, hsome⟩
      · rw [hnone, Option.none_or] at h
        refine hlifetime (fun k hk => ?_) h
        rw [← Option.some.inj (hkey.symm.trans hk)]
        exact hvalid
      · rw [hempty, Option.some_or] at h
        exact Option.some.inj h ▸ .emptyKey hkey
      · rw [hsome, Option.some_or] at h
        exact Option.some.inj h ▸ .longKey hkey hlong

/-- A look-up is acceptable just if its key is. -/
theorem acceptable_get {key : String} : (get key).Acceptable ↔ ValidKey key :=
  ⟨fun hok => hok.key key rfl, fun hkey => ⟨fun _ h => Option.some.inj h ▸ hkey, nofun⟩⟩

/-- The lifetime that an operation is carried out with: the one that the
    client gives, or else the default. -/
def ttl (defaultTtl : Duration) (op : Operation) : Duration :=
  (op.givenTtl?.bind Duration.ofMillis?).getD defaultTtl

/-- An operation without a lifetime of its own has the default one. -/
theorem ttl_of_absent {op : Operation} (h : op.givenTtl? = none) (defaultTtl : Duration) :
    op.ttl defaultTtl = defaultTtl := by
  rw [ttl, h]
  rfl

/-- A given lifetime is taken to the nanosecond. -/
theorem nanos_ttl_of_given {op : Operation} (hok : op.Acceptable) {ms : Int}
    (h : op.givenTtl? = some ms) (defaultTtl : Duration) :
    (op.ttl defaultTtl).nanos = ms * 1000000 := by
  obtain ⟨d, hd⟩ := Option.isSome_iff_exists.mp (Duration.ofMillis?_isSome.mpr (hok.ttl ms h))
  have httl : op.ttl defaultTtl = d := by
    rw [ttl, h, Option.bind_some, hd, Option.getD_some]
  rw [httl]
  unfold Duration.ofMillis? Duration.ofNanos? at hd
  split at hd
  · cases hd
    rfl
  · cases hd

/-! ## The checks of a handler -/

/-- What a check answers: an error that tells the complaint if there is one,
    and a result otherwise. -/
def verdict {α : Type} (complaint : Option String) (a : α) : Except CacheError α :=
  match complaint with
  | some text => .error (.invalidRequest text)
  | none => .ok a

theorem checkKey_eq (key : String) : checkKey key = verdict (keyComplaint? key) () := by
  rw [checkKey]
  cases keyComplaint? key with
  | none => rfl
  | some text => rfl

/-- A lifetime that passes the check is the one that is asked for. -/
theorem checkTtl_eq (ms : Int) (defaultTtl : Duration) :
    checkTtl ms = verdict (ttlComplaint? ms) ((Duration.ofMillis? ms).getD defaultTtl) := by
  rw [checkTtl, ttlComplaint?]
  cases Duration.ofMillis? ms with
  | none => rfl
  | some d => rfl

/-- The lifetime of a body is checked if it has one, and is the default one if
    not. -/
theorem chosenTtl_eq (defaultTtl : Duration) (ttl : Option Int) :
    chosenTtl defaultTtl ttl =
      verdict (ttl.bind ttlComplaint?) ((ttl.bind Duration.ofMillis?).getD defaultTtl) := by
  cases ttl with
  | none => rfl
  | some ms => exact checkTtl_eq ms defaultTtl

/-- The first complaint counts. -/
theorem verdict_seq {α β : Type} (first second : Option String) (a : α) (b : β) :
    (do let _ ← verdict first a; verdict second b) = verdict (first.or second) b := by
  cases first with
  | none => rfl
  | some text => rfl

/-- A body is checked for its key first and for its lifetime then. -/
theorem checkWrite_eq (defaultTtl : Duration) (body : WriteBody) :
    checkWrite defaultTtl body = verdict (put body).complaint? ((put body).ttl defaultTtl) := by
  rw [checkWrite, checkKey_eq, chosenTtl_eq, verdict_seq]
  rfl

/-- Another lifetime is checked for its key first, too. -/
theorem checkLifetime_eq (defaultTtl : Duration) (key : String) (ms : Int) :
    (checkKey key *> checkTtl ms) =
      verdict (setLifetime key ms).complaint? ((setLifetime key ms).ttl defaultTtl) := by
  rw [checkKey_eq, checkTtl_eq ms defaultTtl]
  exact verdict_seq (keyComplaint? key) (ttlComplaint? ms) () _

/-- An operation that is about a key alone is as right as the key. -/
theorem checkKey_eq_of_keyed (op : Operation) {key : String} (hkey : op.key? = some key)
    (httl : op.givenTtl? = none) : checkKey key = verdict op.complaint? () := by
  rw [checkKey_eq, complaint?, hkey, httl]
  exact congrArg (verdict · ()) (Option.or_none).symm

/-- An operation with which something is wrong leaves the cache alone. -/
theorem perform_of_complaint {op : Operation} {complaint : String}
    (h : op.complaint? = some complaint) (defaultTtl : Duration) (c : Cache String Value) :
    op.perform defaultTtl c = (.error (.invalidRequest complaint), c) := by
  cases op with
  | put body => rw [perform, checkWrite_eq, h]; rfl
  | putIfAbsent body =>
      have hput : (put body).complaint? = some complaint := h
      rw [perform, checkWrite_eq, hput]; rfl
  | get key => rw [perform, checkKey_eq_of_keyed (.get key) rfl rfl, h]; rfl
  | delete key => rw [perform, checkKey_eq_of_keyed (.delete key) rfl rfl, h]; rfl
  | lifetime key => rw [perform, checkKey_eq_of_keyed (.lifetime key) rfl rfl, h]; rfl
  | setLifetime key ms => rw [perform, checkLifetime_eq defaultTtl, h]; rfl
  | keys => cases h
  | clear => cases h
  | stats => cases h
  | health => cases h

/-! ## The call that it makes -/

/-- The call that an operation makes if nothing is wrong with it; a sign of
    life needs none. -/
def call? (ttl : Duration) : Operation → Option (ExpiringCache.Request String Value)
  | .put body => some (.put body.key body.value ttl)
  | .putIfAbsent body => some (.putIfAbsent body.key body.value ttl)
  | .get key => some (.get key)
  | .delete key => some (.remove [key])
  | .lifetime key => some (.lifetime key)
  | .setLifetime key _ => some (.setLifetime key ttl)
  | .keys => some .keys
  | .clear => some .clear
  | .stats => some .stats
  | .health => none

/-- The call that an operation makes, if nothing is wrong with it. -/
def Makes (defaultTtl : Duration) (op : Operation)
    (call : ExpiringCache.Request String Value) : Prop :=
  op.Acceptable ∧ op.call? (op.ttl defaultTtl) = some call

/-- What an operation on a cache comes to: the status and the text of the
    response, and the cache after it. -/
inductive Comes (defaultTtl : Duration) (c : Cache String Value) (op : Operation) :
    Nat → String → Cache String Value → Prop where
  /-- Something is wrong with it. -/
  | refused {complaint : String} (h : op.complaint? = some complaint) :
      Comes defaultTtl c op 400 (errorText ("Invalid request: " ++ complaint)) c
  /-- The key whose value was asked for is not live. -/
  | missing {key : String} (hop : op = .get key) (hkey : ValidKey key)
      (hdead : c.store.live? c.now key = none) :
      Comes defaultTtl c op 404 (errorText ("Key not found: " ++ key)) c.missed
  /-- The reply to its call is told. -/
  | served {call : ExpiringCache.Request String Value} {reply : Reply String Value}
      {text : String} {c' : Cache String Value} (hmakes : op.Makes defaultTtl call)
      (hreply : c.begin call = (.reply reply, c')) (htell : op.telling? reply = some text) :
      Comes defaultTtl c op 200 text c'
  /-- It is about the server, not about the cache. -/
  | healthy (hop : op = .health) :
      Comes defaultTtl c op 200 (healthText (c.clock.wall * 1000000)) c

/-- This is what carrying an operation out comes to. -/
theorem comes (defaultTtl : Duration) (c : Cache String Value) (op : Operation) :
    ∃ status text, Response.ofResult (op.perform defaultTtl c).1 = .json status text ∧
      op.Comes defaultTtl c status text (op.perform defaultTtl c).2 := by
  cases hcomplaint : op.complaint? with
  | some complaint =>
      rw [perform_of_complaint hcomplaint]
      exact ⟨400, _, congrArg (Response.json 400) (Answer.failure_eq (.invalidRequest complaint)),
        .refused hcomplaint⟩
  | none =>
      have hok : op.Acceptable := complaint?_eq_none.mp hcomplaint
      cases op with
      | put body =>
          rw [perform, checkWrite_eq, hcomplaint]
          have hreply : c.begin (.put body.key body.value ((put body).ttl defaultTtl)) =
              (.reply .done, c.put body.key body.value ((put body).ttl defaultTtl)) := rfl
          exact ⟨200, _, rfl, .served ⟨hok, rfl⟩ hreply
            (congrArg some (Answer.stored_eq body.key).symm)⟩
      | putIfAbsent body =>
          have hput : (put body).complaint? = none := hcomplaint
          rw [perform, checkWrite_eq, hput]
          have hreply : c.begin (.putIfAbsent body.key body.value ((put body).ttl defaultTtl)) =
              (.reply (.flag (c.putIfAbsent body.key body.value ((put body).ttl defaultTtl)).1),
                (c.putIfAbsent body.key body.value ((put body).ttl defaultTtl)).2) := rfl
          exact ⟨200, _, rfl, .served ⟨hok, rfl⟩ hreply
            (congrArg some (Answer.storedIfAbsent_eq body.key _).symm)⟩
      | get key =>
          rw [perform, checkKey_eq_of_keyed (.get key) rfl rfl, hcomplaint]
          cases hlive : c.store.live? c.now key with
          | none =>
              have hget : c.get key = (none, c.missed) := Cache.get_eq_missed hlive
              simp only [verdict, afterChecks, hget]
              exact ⟨404, _, congrArg (Response.json 404) (Answer.failure_eq (.notFound key)),
                .missing rfl (hok.key key rfl) hlive⟩
          | some item =>
              have hread : c.read.store.live? c.read.now key = some item := by rwa [Cache.now_read]
              have hget := Cache.get_of_live hread
              have hreply : c.begin (.get key) =
                  (.reply (.value (some item.value)), (c.get key).2) := by
                simp only [Cache.begin]
                rw [hget]
              simp only [verdict, afterChecks]
              rw [hget]
              exact ⟨200, _, rfl, .served ⟨hok, rfl⟩ hreply
                (congrArg some (Answer.found_eq key item.value).symm)⟩
      | delete key =>
          rw [perform, checkKey_eq_of_keyed (.delete key) rfl rfl, hcomplaint]
          have hreply : c.begin (.remove [key]) =
              (.reply (.value (c.remove [key]).1), (c.remove [key]).2) := rfl
          exact ⟨200, _, rfl, .served ⟨hok, rfl⟩ hreply (Answer.telling?_delete key _)⟩
      | lifetime key =>
          rw [perform, checkKey_eq_of_keyed (.lifetime key) rfl rfl, hcomplaint]
          have hreply : c.begin (.lifetime key) =
              (.reply (.span (c.lifetime key).1), (c.lifetime key).2) := rfl
          exact ⟨200, _, rfl, .served ⟨hok, rfl⟩ hreply
            (congrArg some (Answer.lifetime_eq key _).symm)⟩
      | setLifetime key ms =>
          rw [perform, checkLifetime_eq defaultTtl, hcomplaint]
          have hreply : c.begin (.setLifetime key ((setLifetime key ms).ttl defaultTtl)) =
              (.reply (.span (c.setLifetime key ((setLifetime key ms).ttl defaultTtl)).1),
                (c.setLifetime key ((setLifetime key ms).ttl defaultTtl)).2) := rfl
          exact ⟨200, _, rfl, .served ⟨hok, rfl⟩ hreply
            (congrArg some (Answer.previousLifetime_eq key _).symm)⟩
      | keys =>
          have hreply : c.begin .keys = (.reply (.keys c.keys), c) := rfl
          exact ⟨200, _, rfl, .served ⟨hok, rfl⟩ hreply
            (congrArg some (Answer.keys_eq (sortedKeys c.keys)).symm)⟩
      | clear =>
          have hreply : c.begin .clear = (.reply .done, c.clear) := rfl
          exact ⟨200, _, rfl, .served ⟨hok, rfl⟩ hreply
            (congrArg some Answer.message_cleared.symm)⟩
      | stats =>
          have hreply : c.begin .stats = (.reply (.stats c.stats), c) := rfl
          exact ⟨200, _, rfl, .served ⟨hok, rfl⟩ hreply
            (congrArg some (Answer.statsWithRate_eq c.stats).symm)⟩
      | health => exact ⟨200, _, congrArg (Response.json 200) (Answer.healthy_eq _), .healthy rfl⟩

section Comes

variable {defaultTtl : Duration} {c c' : Cache String Value} {op : Operation} {status : Nat}
  {text : String}

/-- The cache changes by the call that is made, and by nothing else. -/
theorem Comes.makes (h : op.Comes defaultTtl c status text c') :
    (∃ call reply, op.Makes defaultTtl call ∧ c.begin call = (.reply reply, c')) ∨
      (∀ call, ¬op.Makes defaultTtl call) ∧ c' = c := by
  cases h with
  | refused hcomplaint =>
      right
      refine ⟨fun call hmakes => ?_, rfl⟩
      rw [complaint?_eq_none.mpr hmakes.1] at hcomplaint
      cases hcomplaint
  | @missing key hop hkey hdead =>
      subst hop
      left
      refine ⟨.get key, .value none, ⟨acceptable_get.mpr hkey, rfl⟩, ?_⟩
      simp only [Cache.begin, Cache.get_eq_missed hdead]
  | served hmakes hreply htell => exact .inl ⟨_, _, hmakes, hreply⟩
  | healthy hop =>
      subst hop
      exact .inr ⟨fun call hmakes => (nomatch hmakes.2), rfl⟩

/-- Whose value is told is live. -/
theorem live_of_telling {key : String} {reply : Reply String Value} {text : String}
    (hreply : c.begin (.get key) = (.reply reply, c'))
    (htell : (get key).telling? reply = some text) : c.store.live? c.now key ≠ none := by
  intro hdead
  simp only [Cache.begin, Cache.get_eq_missed hdead] at hreply
  cases hreply
  cases htell

end Comes

/-! ## Listed keys -/

/-- The listed keys ascend, and no key is listed twice. -/
theorem pairwise_sortedKeys (c : Cache String Value) :
    (sortedKeys c.keys).Pairwise (· < ·) := by
  have hperm : (sortedKeys c.keys).Perm c.keys := List.mergeSort_perm c.keys _
  have hnodup : (sortedKeys c.keys).Nodup := hperm.nodup_iff.mpr c.store.items.nodup
  have hsorted : (sortedKeys c.keys).Pairwise fun a b => decide (a ≤ b) = true := by
    refine List.pairwise_mergeSort (fun a b d hab hbd => ?_) (fun a b => ?_) c.keys
    · exact decide_eq_true (String.le_trans (of_decide_eq_true hab) (of_decide_eq_true hbd))
    · rw [Bool.or_eq_true, decide_eq_true_iff, decide_eq_true_iff]
      exact String.le_total a b
  refine (hsorted.and hnodup).imp fun {a b} h => ?_
  obtain ⟨hle, hne⟩ := h
  by_contra hlt
  exact hne (String.le_antisymm (of_decide_eq_true hle) (String.not_lt.mp hlt))

/-- The keys that are listed are those that are stored. -/
theorem mem_sortedKeys {c : Cache String Value} {key : String} :
    key ∈ sortedKeys c.keys ↔ c.store.contains key = true :=
  (List.mergeSort_perm c.keys _).mem_iff.trans Table.contains_iff.symm

/-- As many keys are listed as are stored. -/
theorem length_sortedKeys (c : Cache String Value) : (sortedKeys c.keys).length = c.size := by
  rw [sortedKeys, List.length_mergeSort]
  exact List.length_map Prod.fst

/-! ## What can be said of the response -/

/-- The store, the recency list, the notices and the index of a cache are
    those of another. -/
structure Untouched (c c' : Cache String Value) : Prop where
  store : c'.store = c.store
  recency : c'.recency = c.recency
  notices : c'.notices = c.notices
  index : c'.index = c.index

/-- What is right about the status and the text of the response to an
    operation, and about the cache after it. -/
structure Handled (defaultTtl : Duration) (op : Operation) (c : Cache String Value)
    (status : Nat) (text : String) (c' : Cache String Value) : Prop where
  /-- There are three kinds of responses. -/
  kinds : status = 200 ∨ status = 400 ∨ status = 404
  /-- An operation is refused for its key or its lifetime, and for nothing
      else. -/
  refused : status = 400 ↔ ¬op.Acceptable
  /-- Only a value can be missing. -/
  missing : status = 404 ↔
    ∃ key, op = .get key ∧ ValidKey key ∧ c.store.live? c.now key = none
  /-- A client whose operation is refused is told what is wrong with it. -/
  explained : status = 400 →
    ∃ complaint, op.Complaint complaint ∧ text = errorText ("Invalid request: " ++ complaint)
  /-- A client whose key is not live is told its key. -/
  named : status = 404 →
    ∀ key, op.key? = some key → text = errorText ("Key not found: " ++ key)
  /-- A given lifetime is the one that the call is made with. -/
  given : op.Acceptable → ∀ ms, op.givenTtl? = some ms →
    (op.ttl defaultTtl).nanos = ms * 1000000
  /-- The default stands in for it. -/
  absent : op.givenTtl? = none → op.ttl defaultTtl = defaultTtl
  /-- One call is made, and its reply is told. -/
  served : status = 200 → op ≠ .health →
    ∃ call reply, op.Makes defaultTtl call ∧ c.begin call = (.reply reply, c') ∧
      op.telling? reply = some text
  /-- No call is made for a sign of life. -/
  healthy : op = .health →
    c' = c ∧ text = healthText (c.clock.wall * 1000000)
  /-- Each stored key is listed once, in ascending order, with the number of
      stored keys; and who reads a key in the list gets this key. -/
  listed : op = .keys → ∃ ks : List String, ks.Pairwise (· < ·) ∧
    (∀ key, key ∈ ks ↔ c.store.contains key = true) ∧ ks.length = c.size ∧
      text = keyListText ks ∧
        ∀ key ∈ ks, ∀ rest, readText ((quote key).toList ++ rest) = .ok (key, rest)
  /-- Any other response has left no trace, -/
  unserved : status ≠ 200 → Untouched c c'
  /-- except for the miss that is counted. -/
  counted : status ≠ 200 →
    c'.counters = if status = 404 then c.counters.miss else c.counters

/-- All that is claimed of an operation is read off what it comes to. -/
theorem Comes.handled {defaultTtl : Duration} {c c' : Cache String Value} {op : Operation}
    {status : Nat} {text : String} (h : op.Comes defaultTtl c status text c') :
    op.Handled defaultTtl c status text c' := by
  have hgiven : op.Acceptable → ∀ ms, op.givenTtl? = some ms →
      (op.ttl defaultTtl).nanos = ms * 1000000 :=
    fun hok ms hms => nanos_ttl_of_given hok hms defaultTtl
  have habsent : op.givenTtl? = none → op.ttl defaultTtl = defaultTtl :=
    fun hnone => ttl_of_absent hnone defaultTtl
  cases h with
  | @refused complaint hcomplaint =>
      have hbad : ¬op.Acceptable := fun hok => by
        rw [complaint?_eq_none.mpr hok] at hcomplaint
        cases hcomplaint
      refine ⟨.inr (.inl rfl), ⟨fun _ => hbad, fun _ => rfl⟩, ⟨nofun, ?_⟩,
        fun _ => ⟨complaint, complaint_of_complaint? hcomplaint, rfl⟩, nofun, hgiven, habsent,
        nofun, ?_, ?_, fun _ => ⟨rfl, rfl, rfl, rfl⟩, fun _ => rfl⟩
      · rintro ⟨key, rfl, hkey, -⟩
        exact absurd (acceptable_get.mpr hkey) hbad
      · rintro rfl
        exact absurd ⟨nofun, nofun⟩ hbad
      · rintro rfl
        exact absurd ⟨nofun, nofun⟩ hbad
  | @missing key hop hkey hdead =>
      subst hop
      have hok : (get key).Acceptable := acceptable_get.mpr hkey
      refine ⟨.inr (.inr rfl), ⟨nofun, fun hbad => absurd hok hbad⟩,
        ⟨fun _ => ⟨key, rfl, hkey, hdead⟩, fun _ => rfl⟩, nofun, fun _ k hk => ?_, hgiven,
        habsent, nofun, nofun, nofun, fun _ => ⟨rfl, rfl, rfl, rfl⟩, fun _ => rfl⟩
      rw [Option.some.inj hk]
  | @served call reply text _ hmakes hreply htell =>
      refine ⟨.inl rfl, ⟨nofun, fun hbad => absurd hmakes.1 hbad⟩, ⟨nofun, ?_⟩, nofun, nofun,
        hgiven, habsent, fun _ _ => ⟨call, reply, hmakes, hreply, htell⟩, ?_, ?_,
        fun hne => absurd rfl hne, fun hne => absurd rfl hne⟩
      · rintro ⟨key, rfl, -, hdead⟩
        cases hmakes.2
        exact absurd hdead (live_of_telling hreply htell)
      · rintro rfl
        cases hmakes.2
      · rintro rfl
        cases hmakes.2
        cases hreply
        cases htell
        exact ⟨sortedKeys c.keys, pairwise_sortedKeys c, fun key => mem_sortedKeys,
          length_sortedKeys c, rfl, fun key _ => readText_quote key⟩
  | healthy hop =>
      subst hop
      have hok : health.Acceptable := ⟨nofun, nofun⟩
      refine ⟨.inl rfl, ⟨nofun, fun hbad => absurd hok hbad⟩, ⟨nofun, ?_⟩, nofun, nofun,
        hgiven, habsent, fun _ hne => absurd rfl hne, fun _ => ⟨rfl, rfl⟩, nofun,
        fun hne => absurd rfl hne, fun hne => absurd rfl hne⟩
      rintro ⟨key, hop, -⟩
      cases hop

end Operation

end ExpiringCache.Http
