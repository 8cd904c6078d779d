import ExpiringCache.Proofs.Http.Service

/-! # Services that start

    A service reads its settings from an environment in which anything may
    stand.  What is no text, or no number that a word holds, counts as if it
    were absent.  One number is left with which it does not start: the least
    that a signed word holds, as a default lifetime, is too long for a
    duration by one millisecond.

    A service that has started treats a write without a lifetime as it would
    the same write with the default lifetime given. -/

namespace ExpiringCache

namespace Settings

/-! ## Numbers in decimal digits -/

theorem digit?_eq_some {c : Char} {d : Nat} (h : digit? c = some d) :
    d < 10 ∧ c = Nat.digitChar d := by
  rw [digit?] at h
  split at h
  · rename_i hrange
    rw [Bool.and_eq_true, decide_eq_true_eq, decide_eq_true_eq] at hrange
    have hlow : 48 ≤ c.toNat := hrange.1
    have hhigh : c.toNat ≤ 57 := hrange.2
    have hd : c.toNat - 48 = d := Option.some.inj h
    refine ⟨by omega, ?_⟩
    apply Char.toNat_inj.mp
    rw [Nat.toNat_digitChar_of_lt_ten (by omega)]
    omega
  · cases h

/-- The first of several digits. -/
theorem digitsValue?_cons_eq_some {c : Char} {rest : List Char} {n m : Nat}
    (h : digitsValue? n (c :: rest) = some m) :
    ∃ d < 10, c = Nat.digitChar d ∧ digitsValue? (10 * n + d) rest = some m := by
  rw [digitsValue?] at h
  cases hc : digit? c with
  | none =>
      rw [hc] at h
      cases h
  | some d =>
      rw [hc] at h
      obtain ⟨hd, hchar⟩ := digit?_eq_some hc
      refine ⟨d, hd, hchar, ?_⟩
      rw [Nat.mul_comm]
      exact h

/-- Behind a number without zeros in front, more digits make the number that
    is written with all of them. -/
theorem toDigits_of_digitsValue? {cs : List Char} {n m : Nat} (hn : 0 < n)
    (h : digitsValue? n cs = some m) : Nat.toDigits 10 n ++ cs = Nat.toDigits 10 m := by
  induction cs generalizing n with
  | nil => rw [List.append_nil, Option.some.inj h]
  | cons c rest ih =>
      obtain ⟨d, hd, rfl, hrest⟩ := digitsValue?_cons_eq_some h
      have hwritten := Nat.toDigits_append_toDigits (b := 10) (n := n) (d := d) (by decide) hn hd
      rw [Nat.toDigits_of_lt_base hd] at hwritten
      rw [List.append_cons, hwritten]
      exact ih (by omega) hrest

/-- A positive number is written with its digits, and any number of zeros in
    front. -/
theorem eq_toDigits_of_digitsValue? {cs : List Char} {m : Nat} (hm : 0 < m)
    (h : digitsValue? 0 cs = some m) :
    ∃ zeros, cs = List.replicate zeros '0' ++ Nat.toDigits 10 m := by
  induction cs with
  | nil =>
      cases h
      exact absurd hm (Nat.lt_irrefl 0)
  | cons c rest ih =>
      obtain ⟨d, hd, rfl, hrest⟩ := digitsValue?_cons_eq_some h
      cases d with
      | zero =>
          obtain ⟨zeros, rfl⟩ := ih hrest
          exact ⟨zeros + 1, rfl⟩
      | succ d =>
          rw [Nat.mul_zero, Nat.zero_add] at hrest
          have hwritten := toDigits_of_digitsValue? (Nat.succ_pos d) hrest
          rw [Nat.toDigits_of_lt_base hd] at hwritten
          exact ⟨0, hwritten⟩

/-- Zeros in front make no difference. -/
theorem digitsValue?_replicate (zeros : Nat) (cs : List Char) :
    digitsValue? 0 (List.replicate zeros '0' ++ cs) = digitsValue? 0 cs := by
  induction zeros with
  | zero => rfl
  | succ zeros ih => exact ih

/-! ## The least number -/

/-- The ways to write the least number that a signed word holds. -/
def leastText (zeros : Nat) : String :=
  String.ofList ('-' :: (List.replicate zeros '0' ++ "9223372036854775808".toList))

theorem readSigned_leastText (zeros : Nat) : readSigned (leastText zeros) = some Word.least := by
  have hvalue : digitsValue? 0 (List.replicate zeros '0' ++ "9223372036854775808".toList) =
      some 9223372036854775808 := by
    rw [digitsValue?_replicate]
    decide
  have hmagnitude : magnitude? (List.replicate zeros '0' ++ "9223372036854775808".toList) =
      some 9223372036854775808 := by
    rw [← hvalue]
    cases zeros with
    | zero => rfl
    | succ zeros => rfl
  rw [readSigned, leastText, String.toList_ofList]
  show ((magnitude? _).map fun n => -Int.ofNat n).filter _ = _
  rw [hmagnitude]
  decide

theorem readSigned_eq_least {text : String} :
    readSigned text = some Word.least ↔ ∃ zeros, text = leastText zeros := by
  constructor
  · intro h
    obtain ⟨hnumber, -⟩ := Option.filter_eq_some_iff.mp h
    split at hnumber
    · -- with a plus sign, or without a sign, a number is not negative
      obtain ⟨n, -, hn⟩ := Option.map_eq_some_iff.mp hnumber
      cases hn
    · rename_i rest htext
      obtain ⟨n, hmagnitude, hn⟩ := Option.map_eq_some_iff.mp hnumber
      rw [Word.least, Int.ofNat_eq_natCast] at hn
      have hvalue : digitsValue? 0 rest = some 9223372036854775808 := by
        have hn : n = 9223372036854775808 := by omega
        cases rest with
        | nil => cases hmagnitude
        | cons c rest => exact hmagnitude.trans (congrArg some hn)
      obtain ⟨zeros, hrest⟩ := eq_toDigits_of_digitsValue? (by decide) hvalue
      refine ⟨zeros, ?_⟩
      rw [leastText, ← String.toList_inj, String.toList_ofList, htext, hrest]
      rfl
    · obtain ⟨n, -, hn⟩ := Option.map_eq_some_iff.mp hnumber
      cases hn
  · rintro ⟨zeros, rfl⟩
    exact readSigned_leastText zeros

/-- A number that was read is one that a word holds. -/
theorem fits_of_readSigned {text : String} {i : Int} (h : readSigned text = some i) :
    Word.Fits i :=
  of_decide_eq_true (Option.filter_eq_some_iff.mp h).2

/-! ## Default lifetimes -/

/-- The variable for the default lifetime holds a text for the least number
    of a word. -/
def Overlong (environment : String → Option ByteArray) : Prop :=
  ∃ zeros, environment "DEFAULT_TTL_MS" = some (leastText zeros).toUTF8

/-- Anything that is no number counts as absent, so the setting is the least
    number only if that is what the variable holds. -/
theorem defaultTtl_eq_least {environment : String → Option ByteArray} :
    (ofEnvironment environment).defaultTtl = Word.least ↔ Overlong environment := by
  have hread : setting? environment "DEFAULT_TTL_MS" readSigned = some Word.least ↔
      Overlong environment := by
    rw [setting?, Option.bind_eq_some_iff]
    constructor
    · rintro ⟨text, htext, hleast⟩
      obtain ⟨zeros, rfl⟩ := readSigned_eq_least.mp hleast
      obtain ⟨bytes, hbytes, hdecoded⟩ := Option.bind_eq_some_iff.mp htext
      exact ⟨zeros, by rw [hbytes, Http.Percent.fromUTF8?_eq_some.mp hdecoded]⟩
    · rintro ⟨zeros, hbytes⟩
      refine ⟨leastText zeros, ?_, readSigned_leastText zeros⟩
      rw [hbytes]
      exact Http.Percent.fromUTF8?_eq_some.mpr rfl
  rw [← hread]
  show (setting? environment "DEFAULT_TTL_MS" readSigned).getD 0 = Word.least ↔ _
  cases setting? environment "DEFAULT_TTL_MS" readSigned with
  | none => decide
  | some ms => exact Option.some_inj.symm

/-- In every environment the setting is a number that a word holds. -/
theorem fits_defaultTtl (environment : String → Option ByteArray) :
    Word.Fits (ofEnvironment environment).defaultTtl := by
  show Word.Fits ((setting? environment "DEFAULT_TTL_MS" readSigned).getD 0)
  cases hread : setting? environment "DEFAULT_TTL_MS" readSigned with
  | none => decide
  | some ms =>
      obtain ⟨text, -, hms⟩ := Option.bind_eq_some_iff.mp hread
      exact fits_of_readSigned hms

end Settings

namespace Http

open Json

/-! ## The default given -/

/-- The same operation with a lifetime given, where it may be given and is
    not. -/
def Operation.explicit (ms : Int) : Operation → Operation
  | .put body => .put { body with ttl := some (body.ttl.getD ms) }
  | .putIfAbsent body => .putIfAbsent { body with ttl := some (body.ttl.getD ms) }
  | op => op

theorem checkWrite_explicit {ms : Int} {d : Duration} (h : Duration.ofMillis? ms = some d)
    (body : WriteBody) :
    checkWrite d { body with ttl := some (body.ttl.getD ms) } = checkWrite d body := by
  have hchosen : chosenTtl d (some (body.ttl.getD ms)) = chosenTtl d body.ttl := by
    cases body.ttl with
    | none =>
        show checkTtl ms = .ok d
        rw [checkTtl, h]
    | some given => rfl
  rw [checkWrite, checkWrite, hchosen]

/-- It does not matter whether the default is given. -/
theorem Operation.perform_explicit {ms : Int} {d : Duration} (h : Duration.ofMillis? ms = some d)
    (op : Operation) (c : Cache String Value) : (op.explicit ms).perform d c = op.perform d c := by
  cases op with
  | put body => simp only [explicit, perform, checkWrite_explicit h]
  | putIfAbsent body => simp only [explicit, perform, checkWrite_explicit h]
  | _ => rfl

namespace Service

/-- A client gets the same response, and the same service is left behind,
    whether or not the default is given. -/
theorem answer_explicit {s : Service} {ms : Int} (h : Duration.ofMillis? ms = some s.defaultTtl)
    {request request' : Request} {op : Operation} (hop : request.operation? = some op)
    (hop' : request'.operation? = some (op.explicit ms))
    (hmethod : request'.method = request.method) : s.answer request' = s.answer request := by
  have hperform : s.perform (op.explicit ms) = s.perform op := by
    rw [perform, perform, Operation.perform_explicit h]
  rw [s.answer_of_operation hop, s.answer_of_operation hop', hperform, Request.sent, Request.sent,
    hmethod]

/-! ## Starting -/

/-- A service starts with any default lifetime that a word holds, except for
    the least. -/
theorem start_eq {settings : Settings} (hfits : Word.Fits settings.defaultTtl) (clock : Clock) :
    (settings.defaultTtl = Word.least ∧
        start settings clock = .error (.lifetimeTooLong Word.least)) ∨
      settings.defaultTtl ≠ Word.least ∧
        ∃ d, Duration.ofMillis? settings.defaultTtl = some d ∧
          start settings clock = .ok ⟨.new settings.capacity clock, d⟩ := by
  have hrange : (Duration.ofMillis? settings.defaultTtl).isSome = true ↔
      -Word.greatest ≤ settings.defaultTtl ∧ settings.defaultTtl ≤ Word.greatest :=
    Duration.ofMillis?_isSome
  rw [Word.Fits, Word.least] at hfits
  rw [Word.greatest] at hrange hfits
  cases hmillis : Duration.ofMillis? settings.defaultTtl with
  | none =>
      have hout : ¬(-9223372036854775807 ≤ settings.defaultTtl ∧
          settings.defaultTtl ≤ 9223372036854775807) := by
        rw [← hrange, hmillis]
        exact Bool.false_ne_true
      have hleast : settings.defaultTtl = Word.least := by
        rw [Word.least]
        omega
      left
      refine ⟨hleast, ?_⟩
      rw [start, hmillis, hleast]
  | some d =>
      right
      have hin := hrange.mp (by rw [hmillis]; rfl)
      refine ⟨?_, d, rfl, ?_⟩
      · rw [Word.least]
        omega
      · rw [start, hmillis]

/-- Whatever stands in the environment, a service starts unless the variable
    for the default lifetime holds the least number of a word.  It starts
    with an empty cache and the default that the settings tell, and from then
    on every request without a lifetime is answered like the one that gives
    this default, whatever has happened before. -/
theorem starts_unless_overlong (environment : String → Option ByteArray) (clock : Clock) :
    (start (Settings.ofEnvironment environment) clock = .error (.lifetimeTooLong Word.least) ↔
        Settings.Overlong environment) ∧
      (¬Settings.Overlong environment →
        ∃ s, start (Settings.ofEnvironment environment) clock = .ok s ∧
          s.cache = .new (Settings.ofEnvironment environment).capacity clock ∧
          Duration.ofMillis? (Settings.ofEnvironment environment).defaultTtl =
            some s.defaultTtl ∧
          ∀ (happenings : List Happening) (op : Operation) (request request' : Request),
            request.operation? = some op →
            request'.operation? =
              some (op.explicit (Settings.ofEnvironment environment).defaultTtl) →
            request'.method = request.method →
            (s.run happenings).answer request' = (s.run happenings).answer request) := by
  have hleast : (Settings.ofEnvironment environment).defaultTtl = Word.least ↔
      Settings.Overlong environment := Settings.defaultTtl_eq_least
  rcases start_eq (Settings.fits_defaultTtl environment) clock with
    ⟨hoverlong, hstart⟩ | ⟨hfine, d, hmillis, hstart⟩
  · exact ⟨iff_of_true hstart (hleast.mp hoverlong), fun hfine => absurd (hleast.mp hoverlong) hfine⟩
  · refine ⟨iff_of_false ?_ fun h => hfine (hleast.mpr h), fun _ => ?_⟩
    · rw [hstart]
      exact nofun
    · refine ⟨_, hstart, rfl, hmillis, fun happenings op request request' hop hop' hmethod => ?_⟩
      refine answer_explicit ?_ hop hop' hmethod
      rw [defaultTtl_run]
      exact hmillis

/-- The environment in which only the default lifetime is told. -/
def telling (text : String) : String → Option ByteArray :=
  fun name => if name = "DEFAULT_TTL_MS" then some text.toUTF8 else none

theorem setting?_telling (text : String) :
    Settings.setting? (telling text) "DEFAULT_TTL_MS" Settings.readSigned =
      Settings.readSigned text := by
  rw [Settings.setting?, telling, if_pos rfl, Option.bind_some,
    Http.Percent.fromUTF8?_eq_some.mpr rfl, Option.bind_some]

theorem defaultTtl_telling (text : String) :
    (Settings.ofEnvironment (telling text)).defaultTtl = (Settings.readSigned text).getD 0 := by
  rw [← setting?_telling text]
  rfl

/-- A client stores a value with the given lifetime, or without one. -/
def storing (ttl : String) : Request :=
  ⟨"PUT", "/set", some "application/json", "\x7b\"key\":\"k\",\"value\":true" ++ ttl ++ "\x7d"⟩

/-- The operation that this asks for. -/
def storesTruth (ttl : Option Int) : Option Operation → Bool
  | some (.put ⟨key, .bool true, given⟩) => decide (key = "k") && decide (given = ttl)
  | _ => false

theorem eq_of_storesTruth {ttl : Option Int} {op : Option Operation}
    (h : storesTruth ttl op = true) : op = some (.put ⟨"k", .bool true, ttl⟩) := by
  unfold storesTruth at h
  split at h
  · rw [Bool.and_eq_true, decide_eq_true_eq, decide_eq_true_eq] at h
    rw [h.1, h.2]
  · cases h

/-- A default of five seconds is used as if it had been given, after a value
    was stored and has expired. -/
theorem starts_unless_overlong_of_seconds :
    ¬Settings.Overlong (telling "5000") ∧
      ∃ s, start (Settings.ofEnvironment (telling "5000")) (.unread 100) = .ok s ∧
        (storing "").operation? = some (.put ⟨"k", .bool true, none⟩) ∧
        (s.run lapse).answer (storing ",\"ttl_ms\":5000") = (s.run lapse).answer (storing "") := by
  have hms : (Settings.ofEnvironment (telling "5000")).defaultTtl = 5000 := by
    rw [defaultTtl_telling]
    decide
  have hfine : ¬Settings.Overlong (telling "5000") := by
    rw [← Settings.defaultTtl_eq_least, hms]
    decide
  obtain ⟨-, hstarts⟩ := starts_unless_overlong (telling "5000") (.unread 100)
  obtain ⟨s, hstart, -, -, hanswers⟩ := hstarts hfine
  have hop : (storing "").operation? = some (.put ⟨"k", .bool true, none⟩) :=
    eq_of_storesTruth (by decide +kernel)
  refine ⟨hfine, s, hstart, hop, ?_⟩
  refine hanswers lapse _ (storing "") (storing ",\"ttl_ms\":5000") hop ?_ rfl
  rw [hms]
  exact eq_of_storesTruth (by decide +kernel)

/-- The least number of a word is a default with which a service does not
    start, while a client who gives it to a service is told that it is out of
    range. -/
theorem least_default_prevents_start :
    start (Settings.ofEnvironment (telling "-9223372036854775808")) (.unread 100) =
        .error (.lifetimeTooLong (-9223372036854775808)) ∧
      checkTtl (-9223372036854775808) =
        .error (.invalidRequest "ttl_ms -9223372036854775808 is out of range") ∧
      (start (Settings.ofEnvironment (telling "-9223372036854775809")) (.unread 100)).toBool =
        true := by
  have hleast : (Settings.ofEnvironment (telling "-9223372036854775808")).defaultTtl =
      -9223372036854775808 := by
    rw [defaultTtl_telling]
    decide
  have hmalformed : (Settings.ofEnvironment (telling "-9223372036854775809")).defaultTtl = 0 := by
    rw [defaultTtl_telling]
    decide
  refine ⟨?_, ?_, ?_⟩
  · rw [start, hleast]
    rfl
  · decide
  · rw [start, hmalformed]
    rfl

end Service

end Http

end ExpiringCache
