import ExpiringCache.Proofs.Http.Bodies
import ExpiringCache.Proofs.Http.Percent
import ExpiringCache.Proofs.Http.Routes
import Mathlib.Data.List.TakeWhile

/-! # Requests that say what they mean

    The table of the service reads a request.  Here is the table for a client
    that writes one: which text goes into the target, and which into the
    body, for every operation, key, value and lifetime.  Whatever a client
    says in this way is what it is understood to ask for. -/

namespace ExpiringCache.Http

open Json

namespace Endpoint

/-- A target that begins with a slash, and has neither a query nor a fragment,
    is a path. -/
theorem path_of_plain {target : String} {rest : List Char} (htarget : target.toList = '/' :: rest)
    (h : ∀ c ∈ rest, endsPath c = false) : path target = target := by
  have hauthority : withoutAuthority ('/' :: rest) = '/' :: rest := rfl
  have hall : ∀ c ∈ '/' :: rest, (!endsPath c) = true := by
    intro c hmem
    rcases List.mem_cons.mp hmem with rfl | hmem
    · rfl
    · rw [h c hmem]
      rfl
  rw [path, htarget, hauthority, List.takeWhile_eq_self_iff.mpr hall, ← htarget,
    String.ofList_toList]

end Endpoint

namespace Request

/-- The target is the given beginning with a part behind it that spells the
    key. -/
def Spells (request : Request) (beginning key : String) : Prop :=
  ∃ part, request.target = beginning ++ part ∧ part ≠ "" ∧
    (∀ c ∈ part.toList, c ≠ '/' ∧ c ≠ '?' ∧ c ≠ '#') ∧
      Percent.Spells part.toList key.toList

/-- The client sends a text and calls it JSON. -/
def Brings (request : Request) (text : String) : Prop :=
  request.contentType = some "application/json" ∧ request.body = text ∧
    text.utf8ByteSize ≤ 2097152

/-- The table of the service as a client uses it: what a request says. -/
inductive Says (request : Request) : Operation → Prop where
  | put {key text : String} {value : Value} {ttl : Option (Option Int)}
      (hmethod : request.method = "PUT") (htarget : request.target = "/set")
      (hbody : request.Brings (WriteBody.text key text ttl)) (hvalue : StandsFor text value)
      (hfits : ∀ ms, ttl = some (some ms) → Word.Fits ms) :
      Says request (.put ⟨key, value, ttl.join⟩)
  | putIfAbsent {key text : String} {value : Value} {ttl : Option (Option Int)}
      (hmethod : request.method = "PUT") (htarget : request.target = "/setnx")
      (hbody : request.Brings (WriteBody.text key text ttl)) (hvalue : StandsFor text value)
      (hfits : ∀ ms, ttl = some (some ms) → Word.Fits ms) :
      Says request (.putIfAbsent ⟨key, value, ttl.join⟩)
  | get {key : String} (hmethod : request.Reads) (htarget : request.Spells "/get/" key) :
      Says request (.get key)
  | delete {key : String} (hmethod : request.method = "DELETE")
      (htarget : request.Spells "/del/" key) : Says request (.delete key)
  | lifetime {key : String} (hmethod : request.Reads) (htarget : request.Spells "/expire/" key) :
      Says request (.lifetime key)
  | setLifetime {key : String} {ms : Int} (hmethod : request.method = "PUT")
      (htarget : request.Spells "/expire/" key) (hbody : request.Brings (LifetimeBody.text ms))
      (hfits : Word.Fits ms) : Says request (.setLifetime key ms)
  | keys (hmethod : request.Reads) (htarget : request.target = "/keys") : Says request .keys
  | clear (hmethod : request.method = "POST") (htarget : request.target = "/clear") :
      Says request .clear
  | stats (hmethod : request.Reads) (htarget : request.target = "/stats") : Says request .stats
  | health (hmethod : request.Reads) (htarget : request.target = "/health") :
      Says request .health

variable {request : Request}

/-- A key that is spelled is named. -/
theorem Spells.names {beginning key : String} (h : request.Spells beginning key)
    (rest : List Char) (hbeginning : beginning.toList = '/' :: rest)
    (hplain : ∀ c ∈ rest, Endpoint.endsPath c = false) : request.Names beginning key := by
  obtain ⟨part, htarget, hne, hpart, hkey⟩ := h
  have hends : ∀ c ∈ rest ++ part.toList, Endpoint.endsPath c = false := by
    intro c hmem
    rcases List.mem_append.mp hmem with hmem | hmem
    · exact hplain c hmem
    · obtain ⟨-, hquery, hfragment⟩ := hpart c hmem
      simp [Endpoint.endsPath, hquery, hfragment]
  have hwhole : (beginning ++ part).toList = '/' :: (rest ++ part.toList) := by
    rw [String.toList_append, hbeginning, List.cons_append]
  refine ⟨part, ?_, hne, fun hslash => (hpart '/' hslash).1 rfl, Percent.decode?_of_spells hkey⟩
  rw [htarget, Endpoint.path_of_plain hwhole hends]

/-- A text that the client brings is what it sends, if it can be read. -/
theorem Brings.sends {α : Type} {read : List Char → Except ReadError (α × List Char)} {body : α}
    {text : String} (h : request.Brings text) (hread : readBegin read text = .ok body) :
    request.Sends read body := by
  obtain ⟨htype, rfl, hlength⟩ := h
  exact ⟨⟨_, htype, by decide +kernel⟩, hlength, hread⟩

/-- A request is understood to ask for what it says. -/
theorem Says.asks {op : Operation} (h : request.Says op) : request.Asks op := by
  have hpath : ∀ {text : String}, Endpoint.path text = text → request.target = text →
      Endpoint.path request.target = text := fun htext htarget => htarget ▸ htext
  cases h with
  | put hmethod htarget hbody hvalue hfits =>
      exact .put hmethod (hpath rfl htarget)
        (hbody.sends (WriteBody.readBegin_text hvalue hfits))
  | putIfAbsent hmethod htarget hbody hvalue hfits =>
      exact .putIfAbsent hmethod (hpath rfl htarget)
        (hbody.sends (WriteBody.readBegin_text hvalue hfits))
  | get hmethod htarget =>
      exact .get hmethod (htarget.names ['g', 'e', 't', '/'] rfl (by simp [Endpoint.endsPath]))
  | delete hmethod htarget =>
      exact .delete hmethod (htarget.names ['d', 'e', 'l', '/'] rfl (by simp [Endpoint.endsPath]))
  | lifetime hmethod htarget =>
      exact .lifetime hmethod
        (htarget.names ['e', 'x', 'p', 'i', 'r', 'e', '/'] rfl (by simp [Endpoint.endsPath]))
  | setLifetime hmethod htarget hbody hfits =>
      exact .setLifetime hmethod
        (htarget.names ['e', 'x', 'p', 'i', 'r', 'e', '/'] rfl (by simp [Endpoint.endsPath]))
        (hbody.sends (LifetimeBody.readBegin_text hfits))
  | keys hmethod htarget => exact .keys hmethod (hpath rfl htarget)
  | clear hmethod htarget => exact .clear hmethod (hpath rfl htarget)
  | stats hmethod htarget => exact .stats hmethod (hpath rfl htarget)
  | health hmethod htarget => exact .health hmethod (hpath rfl htarget)

end Request

end ExpiringCache.Http
