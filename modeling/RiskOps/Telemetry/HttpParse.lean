import RiskOps.Lib.IpText
import RiskOps.Lib.IsoTime
import RiskOps.Lib.PyCodec
import RiskOps.Lib.PyJsonStrict
import RiskOps.Lib.Run
import RiskOps.Telemetry.WebDetection

/-!
# RiskOps.Telemetry.HttpParse — normalization of access records

Model of `normalize_http` (`telemetry/http_parse.py`), of the record `http_collector.py` spools for
an event, and of how `HttpStore.ingest` reads it: **collector and server see the same event.** A
record is checked field by field; its time is printed in UTC, its peer in canonical form, its query
dropped and its path decoded. What is spooled of an event is normalized to the event again
(`normalizeHttp_stable`).
-/

namespace RiskOps.Telemetry.Http

open RiskOps.Lib RiskOps.Lib.PyJson RiskOps.Lib.IsoTime

/-! ### Texts -/

/-- `s.replace(old, new)` after so many characters of a match. -/
def replaceFrom (old new : Str) : Nat → Str → Str
  | _, [] => []
  | skip + 1, _ :: s => replaceFrom old new skip s
  | 0, c :: s =>
    if old.isPrefixOf (c :: s) then new ++ replaceFrom old new (old.length - 1) s
    else c :: replaceFrom old new 0 s

/-- `s.replace(old, new)`. -/
def replace (old new s : Str) : Str := replaceFrom old new 0 s

/-- `[A-Z]`. -/
def isUpper (c : Nat) : Bool := 65 ≤ c && c ≤ 90

/-- `[A-Za-z0-9]`. -/
def isAlnum (c : Nat) : Bool := isDigit c || isUpper c || (97 ≤ c && c ≤ 122)

/-- `_ID`. -/
def isIdentity : Str → Bool
  | [] => false
  | c :: rest =>
    isAlnum c && rest.length ≤ 127 &&
      rest.all fun c => isAlnum c || c = 95 || c = 46 || c = 58 || c = 45

/-- `_METHOD`. -/
def isMethod : Str → Bool
  | [] => false
  | c :: rest =>
    isUpper c && rest.length ≤ 31 &&
      rest.all fun c => isUpper c || isDigit c || c = 95 || c = 45

/-! ### Percent-encoding -/

/-- `unquote_to_bytes` of ASCII characters. -/
def unquoteToBytes : Str → List Nat
  | 37 :: a :: b :: s =>
    match hexDigit a, hexDigit b with
    | some high, some low => (high * 16 + low) :: unquoteToBytes s
    | _, _ => 37 :: unquoteToBytes (a :: b :: s)
  | c :: s => c :: unquoteToBytes s
  | [] => []

/-- `unquote` behind a run of ASCII characters. -/
def unquoteFrom (run : Str) : Str → Option Str
  | [] => utf8Decode (unquoteToBytes run)
  | c :: s =>
    if c < 128 then unquoteFrom (run ++ [c]) s
    else do
      let decoded ← utf8Decode (unquoteToBytes run)
      let rest ← unquoteFrom [] s
      return decoded ++ c :: rest

/-- `unquote(s, encoding="utf-8", errors="strict")`. -/
def unquote (s : Str) : Option Str := if 37 ∈ s then unquoteFrom [] s else some s

/-- `DECODE_PASSES`. -/
def decodePasses : Nat := 3

/-- `MAX_PATH_BYTES`. -/
def maxPathBytes : Nat := 8192

/-- The path decoded until nothing changes, for some passes at most. -/
def decodePath : Nat → Str → Option Str
  | 0, path => some path
  | passes + 1, path => do
      let following ← unquote path
      if following = path then return path else decodePath passes following

/-! ### Fields -/

/-- The fields of an access record. -/
structure AccessRecord where
  timestamp : PyJson.Value
  clientIp : PyJson.Value
  method : PyJson.Value
  path : PyJson.Value
  status : PyJson.Value

/-- `_FIELDS`. -/
def fields : List Str := ["timestamp", "client_ip", "method", "path", "status"].map Str.ofString

/-- A record with these fields and no others. -/
def readRecord : PyJson.Value → Option AccessRecord
  | .obj ms => do
      if (ms.map Prod.fst).all (· ∈ fields) then
        let timestamp ← ms.lookup (Str.ofString "timestamp")
        let clientIp ← ms.lookup (Str.ofString "client_ip")
        let method ← ms.lookup (Str.ofString "method")
        let path ← ms.lookup (Str.ofString "path")
        let status ← ms.lookup (Str.ofString "status")
        return { timestamp, clientIp, method, path, status }
      else none
  | _ => none

/-- A source, service or event id. -/
def readIdentity : PyJson.Value → Option (List Char)
  | .str s => if isIdentity s then Codec.textOf s else none
  | _ => none

/-- The moment of a timestamp, in UTC. -/
def readTimestamp : PyJson.Value → Option Moment
  | .str s =>
    if 80 < s.length then none
    else do
      let (t, offset) ← fromisoformat (replace [90] utcText s)
      t.astimezone (← offset)
  | _ => none

/-- `at.isoformat(timespec="microseconds").replace("+00:00", "Z")`. -/
def timestampText (t : Moment) : Str := replace utcText [90] (isoformat t)

/-- The address of a peer. IPv4-mapped peers are the same endpoint as IPv4 peers. -/
def readAddress : PyJson.Value → Option IpAddress
  | .str s =>
    if 37 ∈ s then none
    else do
      let address ← IpAddress.parse (← Codec.textOf s)
      return (address.ipv4Mapped.map IpAddress.v4).getD address
  | _ => none

/-- A method. -/
def readMethod : PyJson.Value → Option (List Char)
  | .str s => if isMethod s then Codec.textOf s else none
  | _ => none

/-- A response status. -/
def readStatus : PyJson.Value → Option Nat
  | .int n => if 100 ≤ n ∧ n ≤ 599 then some n.toNat else none
  | _ => none

/-- A request target. -/
def readTarget : PyJson.Value → Option Str
  | .str s =>
    if (s.head? = some 47 || s = [42]) && s.all fun c => 32 ≤ c && c ≠ 127 then some s else none
  | _ => none

/-- `path.partition("?")[0]`. -/
def beforeQuery (path : Str) : Str := path.takeWhile (· ≠ 63)

/-- The path without its query, and what it decodes to. -/
def readPath (target : Str) : Except String (List Char × List Char) :=
  if !target.encodable then .error "invalid HTTP path encoding"
  else if maxPathBytes < utf8Length target then .error "HTTP request path too long"
  else
    let path := beforeQuery target
    match Codec.textOf path, (decodePath decodePasses path).bind Codec.textOf with
    | some path, some decoded => .ok (path, decoded)
    | _, _ => .error "invalid HTTP path encoding"

/-! ### Records and events -/

/-- The value, or the error. -/
def require {α : Type} (message : String) : Option α → Except String α
  | some a => .ok a
  | none => .error message

/-- `normalize_http`. -/
def normalizeHttp (record sourceId serviceId eventId : PyJson.Value) : Except String HttpEvent := do
  let sourceId ← require "invalid HTTP source, service or event identity" (readIdentity sourceId)
  let serviceId ← require "invalid HTTP source, service or event identity" (readIdentity serviceId)
  let eventId ← require "invalid HTTP source, service or event identity" (readIdentity eventId)
  let record ← require "invalid HTTP record fields" (readRecord record)
  let at_ ← require "invalid HTTP timestamp" (readTimestamp record.timestamp)
  let address ← require "invalid HTTP client address" (readAddress record.clientIp)
  let method ← require "invalid HTTP method" (readMethod record.method)
  let status ← require "invalid HTTP response status" (readStatus record.status)
  let target ← require "invalid HTTP request path" (readTarget record.path)
  let (path, decodedPath) ← readPath target
  return {
    sourceId, serviceId, eventId
    timestamp := (timestampText at_).map Char.ofNat
    eventTs := at_.sinceEpoch / 1000000
    clientIp := address.toText
    method, path, decodedPath, status }

/-- The fields of an event that are spooled, without its id. -/
def HttpEvent.projection (e : HttpEvent) : List (Str × PyJson.Value) := [
  (Str.ofString "timestamp", .str (Codec.codesOf e.timestamp)),
  (Str.ofString "client_ip", .str (Codec.codesOf e.clientIp)),
  (Str.ofString "method", .str (Codec.codesOf e.method)),
  (Str.ofString "path", .str (Codec.codesOf e.path)),
  (Str.ofString "status", .int e.status)]

/-- `event_id`. -/
def eventIdName : Str := Str.ofString "event_id"

/-- `clean` of `build_pending`: the record the collector spools. -/
def HttpEvent.clean (e : HttpEvent) : List (Str × PyJson.Value) :=
  (eventIdName, .str (Codec.codesOf e.eventId)) :: e.projection

/-- A record of a batch, as `HttpStore.ingest` reads it at some time. -/
def ingestRecord (now : ℚ) (sourceId serviceId : PyJson.Value)
    (record : List (Str × PyJson.Value)) : Except String HttpEvent := do
  match record.lookup eventIdName with
  | some (.str id) =>
    let event ← normalizeHttp (.obj (record.filter fun m => m.1 ≠ eventIdName)) sourceId serviceId
      (.str id)
    if now + 300 < event.eventTs then .error "HTTP timestamp is in the future"
    else return event
  | _ => .error "Invalid HTTP event identity"

/-! ### Each field is read again as it was -/

section Again

variable {v : PyJson.Value}

theorem readIdentity_eq_some {s : List Char} (h : readIdentity v = some s) :
    v = .str (Codec.codesOf s) := by
  cases v with
  | str raw =>
    rw [readIdentity] at h
    split at h
    · rw [Codec.textOf_eq_some_iff.mp h]
    · cases h
  | _ => cases h

theorem readMethod_eq_some {s : List Char} (h : readMethod v = some s) :
    v = .str (Codec.codesOf s) := by
  cases v with
  | str raw =>
    rw [readMethod] at h
    split at h
    · rw [Codec.textOf_eq_some_iff.mp h]
    · cases h
  | _ => cases h

theorem readStatus_eq_some {n : Nat} (h : readStatus v = some n) : v = .int n := by
  cases v with
  | int k =>
    rw [readStatus] at h
    split at h
    · rename_i hrange
      rw [← Option.some.inj h, Int.toNat_of_nonneg (by omega)]
    · cases h
  | _ => cases h

/-- Nothing is replaced where the text does not start. -/
theorem replaceFrom_append {a : Nat} {old new s t : Str} (h : a ∉ s) :
    replaceFrom (a :: old) new 0 (s ++ t) = s ++ replaceFrom (a :: old) new 0 t := by
  induction s with
  | nil => rfl
  | cons c s ih =>
    rw [List.mem_cons, not_or] at h
    rw [List.cons_append, replaceFrom, List.isPrefixOf_cons_cons, beq_eq_false_iff_ne.mpr h.1,
      Bool.false_and, if_neg Bool.false_ne_true, ih h.2, List.cons_append]

theorem timestampText_eq (t : Moment) : timestampText t = stamp t ++ [90] := by
  have hplus : 43 ∉ stamp t := fun h => absurd (mem_stamp h).1 (by decide)
  have hutc : utcText = 43 :: Str.ofString "00:00" := by decide
  have hzone : replaceFrom utcText [90] 0 utcText = [90] := by decide
  rw [hutc] at hzone
  rw [timestampText, isoformat, replace, hutc, replaceFrom_append hplus, hzone]

/-- A printed timestamp is the moment again. -/
theorem readTimestamp_timestampText (t : Moment) :
    readTimestamp (.str (timestampText t)) = some t := by
  have hzulu : 90 ∉ stamp t := fun h => absurd (mem_stamp h).2 (by decide)
  have hreplace : replace [90] utcText (timestampText t) = isoformat t := by
    rw [timestampText_eq, replace, replaceFrom_append hzulu]
    rfl
  have hlen : ¬ 80 < (timestampText t).length := by
    rw [timestampText_eq, List.length_append, length_stamp]
    decide
  rw [readTimestamp, if_neg hlen, hreplace, fromisoformat_isoformat]
  rfl

theorem codesOf_ofNat {s : Str} (h : ∀ c ∈ s, c < 128) :
    Codec.codesOf (s.map Char.ofNat) = s := by
  rw [Codec.codesOf, List.map_map]
  refine (List.map_congr_left fun c hc => ?_).trans (List.map_id s)
  have hvalid : c.isValidChar := Or.inl (by have := h c hc; omega)
  rw [Function.comp_apply, Char.ofNat, dif_pos hvalid]
  rfl

theorem codesOf_inj {s t : List Char} : Codec.codesOf s = Codec.codesOf t ↔ s = t := by
  refine ⟨fun h => ?_, fun h => by rw [h]⟩
  have hs := Codec.textOf_eq_some_iff.mpr h
  rw [Codec.textOf_eq_some_iff.mpr rfl] at hs
  exact Option.some.inj hs

/-- The address of a peer has no zone, and is no mapped one. -/
theorem readAddress_plain {a : IpAddress} (h : readAddress v = some a) :
    a.zone = none ∧ a.ipv4Mapped = none := by
  cases v with
  | str s =>
    rw [readAddress] at h
    split at h
    · cases h
    · rename_i hpercent
      simp only [Option.bind_eq_bind, Option.bind_eq_some_iff] at h
      obtain ⟨text, htext, address, hparse, h⟩ := h
      obtain rfl := Option.some.inj h
      have hzone : address.zone = none := by
        refine IpAddress.zone_eq_none hparse fun hmem => hpercent ?_
        rw [Codec.textOf_eq_some_iff.mp htext]
        exact List.mem_map_of_mem (f := Char.toNat) hmem
      cases hmapped : address.ipv4Mapped with
      | none => exact ⟨hzone, hmapped⟩
      | some bits => exact ⟨rfl, rfl⟩
  | _ => cases h

/-- A canonical address is the address again. -/
theorem readAddress_toText {a : IpAddress} (h : readAddress v = some a) :
    readAddress (.str (Codec.codesOf a.toText)) = some a := by
  obtain ⟨hzone, hmapped⟩ := readAddress_plain h
  have hpercent : 37 ∉ Codec.codesOf a.toText := by
    intro hmem
    obtain ⟨c, hc, hcode⟩ := List.mem_map.mp hmem
    have hchar : c = '%' := Char.toNat_inj.mp hcode
    subst hchar
    cases a with
    | v4 n => exact IpAddress.not_mem_textV4 (by decide) (by decide) hc
    | v6 n z =>
      obtain rfl : z = none := hzone
      rw [IpAddress.toText, Option.map_none, Option.getD_none, List.append_nil] at hc
      exact IpAddress.not_mem_textV6 (by decide) (by decide) hc
  rw [readAddress, if_neg hpercent, Codec.textOf_eq_some_iff.mpr rfl]
  simp [IpAddress.parse_toText hzone, hmapped]

theorem beforeQuery_beforeQuery (s : Str) : beforeQuery (beforeQuery s) = beforeQuery s := by
  simp [beforeQuery, List.takeWhile_takeWhile]

/-- A target without its query is a target. -/
theorem readTarget_beforeQuery {target : Str} (h : readTarget v = some target) :
    readTarget (.str (beforeQuery target)) = some (beforeQuery target) := by
  cases v with
  | str s =>
    rw [readTarget] at h
    split at h
    · rename_i hshape
      obtain rfl := Option.some.inj h
      rw [Bool.and_eq_true, Bool.or_eq_true, decide_eq_true_eq, decide_eq_true_eq] at hshape
      have hall : (beforeQuery s).all (fun c => 32 ≤ c && c ≠ 127) = true :=
        List.all_eq_true.mpr fun c hc =>
          List.all_eq_true.mp hshape.2 c ((List.takeWhile_sublist _).subset hc)
      have hhead : (beforeQuery s).head? = some 47 ∨ beforeQuery s = [42] := by
        rcases hshape.1 with hslash | rfl
        · left
          obtain ⟨rest, rfl⟩ := List.head?_eq_some_iff.mp hslash
          rfl
        · exact Or.inr rfl
      rw [readTarget, hall]
      rcases hhead with hhead | hhead
      · rw [hhead]
        rfl
      · rw [hhead]
        rfl
    · cases h
  | _ => cases h

theorem utf8Length_beforeQuery (s : Str) : utf8Length (beforeQuery s) ≤ utf8Length s := by
  have hsplit : s = beforeQuery s ++ s.dropWhile (· ≠ 63) := (List.takeWhile_append_dropWhile).symm
  have hsum : utf8Length s = utf8Length (beforeQuery s) + utf8Length (s.dropWhile (· ≠ 63)) := by
    conv_lhs => rw [hsplit]
    rw [utf8Length, List.map_append, List.sum_append]
    rfl
  omega

theorem encodable_beforeQuery {s : Str} (h : s.encodable = true) :
    (beforeQuery s).encodable = true :=
  List.all_eq_true.mpr fun c hc =>
    List.all_eq_true.mp h c ((List.takeWhile_sublist _).subset hc)

/-- What a path is read as. -/
theorem readPath_eq_ok {target : Str} {path decoded : List Char} :
    readPath target = .ok (path, decoded) ↔ target.encodable = true ∧
      utf8Length target ≤ maxPathBytes ∧ beforeQuery target = Codec.codesOf path ∧
      decodePath decodePasses (beforeQuery target) = some (Codec.codesOf decoded) := by
  rw [readPath]
  by_cases hencodable : target.encodable = true
  · by_cases hlen : maxPathBytes < utf8Length target
    · simp [hencodable, hlen]
    · simp only [hencodable, hlen, Bool.not_true, Bool.false_eq_true, if_false, true_and,
        Nat.not_lt.mp hlen]
      cases hpath : Codec.textOf (beforeQuery target) with
      | none =>
        constructor
        · intro h
          cases h
        · rintro ⟨h, -⟩
          rw [Codec.textOf_eq_some_iff.mpr h] at hpath
          cases hpath
      | some p =>
        cases hdecoded : (decodePath decodePasses (beforeQuery target)).bind Codec.textOf with
        | none =>
          constructor
          · intro h
            cases h
          · rintro ⟨-, h⟩
            rw [h, Option.bind_some, Codec.textOf_eq_some_iff.mpr rfl] at hdecoded
            cases hdecoded
        | some d =>
          obtain ⟨s, hs, htext⟩ := Option.bind_eq_some_iff.mp hdecoded
          rw [hs, Codec.textOf_eq_some_iff.mp hpath, Codec.textOf_eq_some_iff.mp htext]
          simp [codesOf_inj]
  · simp [hencodable]

/-- The path that is kept is read as the path again. -/
theorem readPath_again {target : Str} {path decoded : List Char}
    (h : readPath target = .ok (path, decoded)) :
    readPath (Codec.codesOf path) = .ok (path, decoded) := by
  obtain ⟨hencodable, hlen, hpath, hdecoded⟩ := Iff.mp readPath_eq_ok h
  rw [← hpath]
  refine Iff.mpr readPath_eq_ok ⟨encodable_beforeQuery hencodable,
    (utf8Length_beforeQuery target).trans hlen, ?_, ?_⟩
  · rw [beforeQuery_beforeQuery, hpath]
  · rw [beforeQuery_beforeQuery, hdecoded]

end Again

/-! ### Each event is normalized again as it was -/

theorem require_eq_ok {α : Type} {message : String} {o : Option α} {a : α} :
    require message o = .ok a ↔ o = some a := by
  cases o with
  | none => simp [require]
  | some b => simp [require]

/-- The fields of an event are those of the record. -/
structure Normalized (record sourceId serviceId eventId : PyJson.Value) (e : HttpEvent)
    (fields : AccessRecord) (at_ : Moment) (address : IpAddress) (target : Str) : Prop where
  source : readIdentity sourceId = some e.sourceId
  service : readIdentity serviceId = some e.serviceId
  event : readIdentity eventId = some e.eventId
  record : readRecord record = some fields
  time : readTimestamp fields.timestamp = some at_
  peer : readAddress fields.clientIp = some address
  method : readMethod fields.method = some e.method
  status : readStatus fields.status = some e.status
  requested : readTarget fields.path = some target
  path : readPath target = .ok (e.path, e.decodedPath)
  timestamp : e.timestamp = (timestampText at_).map Char.ofNat
  seconds : e.eventTs = at_.sinceEpoch / 1000000
  clientIp : e.clientIp = address.toText

/-- What `normalize_http` accepts. -/
theorem normalizeHttp_eq_ok {record sourceId serviceId eventId : PyJson.Value} {e : HttpEvent} :
    normalizeHttp record sourceId serviceId eventId = .ok e ↔ ∃ fields at_ address target,
      Normalized record sourceId serviceId eventId e fields at_ address target := by
  simp only [normalizeHttp, bind_eq_ok, require_eq_ok, Prod.exists]
  constructor
  · rintro ⟨source, hsource, service, hservice, event, hevent, fields, hrecord, at_, htime, address,
      hpeer, method, hmethod, status, hstatus, target, htarget, path, decoded, hpath, h⟩
    obtain rfl := Except.ok.inj h
    exact ⟨fields, at_, address, target, hsource, hservice, hevent, hrecord, htime, hpeer, hmethod,
      hstatus, htarget, hpath, rfl, rfl, rfl⟩
  · rintro ⟨fields, at_, address, target, h⟩
    refine ⟨_, h.source, _, h.service, _, h.event, fields, h.record, at_, h.time, address, h.peer,
      _, h.method, _, h.status, target, h.requested, _, _, h.path, ?_⟩
    rw [← h.timestamp, ← h.seconds, ← h.clientIp]
    rfl

section Stable

variable {record sourceId serviceId eventId : PyJson.Value} {e : HttpEvent} {fields : AccessRecord}
  {at_ : Moment} {address : IpAddress} {target : Str}

theorem readRecord_projection (e : HttpEvent) :
    readRecord (.obj e.projection) = some
      { timestamp := .str (Codec.codesOf e.timestamp)
        clientIp := .str (Codec.codesOf e.clientIp)
        method := .str (Codec.codesOf e.method)
        path := .str (Codec.codesOf e.path)
        status := .int e.status } := rfl

theorem codesOf_timestamp (t : Moment) :
    Codec.codesOf ((timestampText t).map Char.ofNat) = timestampText t := by
  refine codesOf_ofNat fun c hc => ?_
  rw [timestampText_eq, List.mem_append, List.mem_singleton] at hc
  rcases hc with hc | rfl
  · have := mem_stamp hc
    omega
  · decide

/-- What is spooled of an event is normalized to the event. -/
theorem Normalized.again
    (h : Normalized record sourceId serviceId eventId e fields at_ address target) :
    normalizeHttp (.obj e.projection) sourceId serviceId eventId = .ok e := by
  have hmethod := h.method
  rw [readMethod_eq_some h.method] at hmethod
  have hstatus := h.status
  rw [readStatus_eq_some h.status] at hstatus
  have htarget := readTarget_beforeQuery h.requested
  rw [(Iff.mp readPath_eq_ok h.path).2.2.1] at htarget
  refine Iff.mpr normalizeHttp_eq_ok ⟨_, at_, address, Codec.codesOf e.path, h.source, h.service,
    h.event, readRecord_projection e, ?_, ?_, hmethod, hstatus, htarget, readPath_again h.path,
    h.timestamp, h.seconds, h.clientIp⟩
  · dsimp only
    rw [h.timestamp, codesOf_timestamp, readTimestamp_timestampText]
  · dsimp only
    rw [h.clientIp, readAddress_toText h.peer]

end Stable

/-- Two records with the same fields, but for what comes after a `?` in the path. -/
def SameButQuery (record record' : PyJson.Value) : Prop :=
  ∃ fields fields' path path', readRecord record = some fields ∧ readRecord record' = some fields' ∧
    fields.path = .str path ∧ fields'.path = .str path' ∧ beforeQuery path = beforeQuery path' ∧
    fields' = { fields with path := .str path' }

theorem readTarget_eq_some {v : PyJson.Value} {target : Str} (h : readTarget v = some target) :
    v = .str target := by
  cases v with
  | str s =>
    rw [readTarget] at h
    split at h
    · rw [Option.some.inj h]
    · cases h
  | _ => cases h

/-- The query does not matter. -/
theorem eq_of_sameButQuery {record record' sourceId serviceId eventId : PyJson.Value}
    {e e' : HttpEvent}
    (hsame : SameButQuery record record')
    (h : normalizeHttp record sourceId serviceId eventId = .ok e)
    (h' : normalizeHttp record' sourceId serviceId eventId = .ok e') : e' = e := by
  obtain ⟨fields, at_, address, target, h⟩ := Iff.mp normalizeHttp_eq_ok h
  obtain ⟨fields', at_', address', target', h'⟩ := Iff.mp normalizeHttp_eq_ok h'
  obtain ⟨k, k', path, path', hk, hk', hpath, hpath', hquery, hfields⟩ := hsame
  obtain rfl := Option.some.inj (h.record.symm.trans hk)
  obtain rfl := Option.some.inj (h'.record.symm.trans hk')
  have hrequested := h.requested
  have hrequested' := h'.requested
  rw [hpath] at hrequested
  rw [hpath'] at hrequested'
  obtain rfl := PyJson.Value.str.inj (readTarget_eq_some hrequested)
  obtain rfl := PyJson.Value.str.inj (readTarget_eq_some hrequested')
  have hkept := readPath_eq_ok.mp h.path
  have hkept' := readPath_eq_ok.mp h'.path
  rw [← hquery] at hkept'
  have hat : at_' = at_ := by
    have htime := h'.time
    rw [hfields] at htime
    exact Option.some.inj (htime.symm.trans h.time)
  have haddress : address' = address := by
    have hpeer := h'.peer
    rw [hfields] at hpeer
    exact Option.some.inj (hpeer.symm.trans h.peer)
  have hmethod : e'.method = e.method := by
    have hread := h'.method
    rw [hfields] at hread
    exact Option.some.inj (hread.symm.trans h.method)
  have hstatus : e'.status = e.status := by
    have hread := h'.status
    rw [hfields] at hread
    exact Option.some.inj (hread.symm.trans h.status)
  have hpathText : e'.path = e.path :=
    codesOf_inj.mp (hkept'.2.2.1.symm.trans hkept.2.2.1)
  have hdecoded : e'.decodedPath = e.decodedPath :=
    codesOf_inj.mp (Option.some.inj (hkept'.2.2.2.symm.trans hkept.2.2.2))
  have hsource := Option.some.inj (h'.source.symm.trans h.source)
  have hservice := Option.some.inj (h'.service.symm.trans h.service)
  have hevent := Option.some.inj (h'.event.symm.trans h.event)
  have htimestamp : e'.timestamp = e.timestamp := by rw [h'.timestamp, h.timestamp, hat]
  have hseconds : e'.eventTs = e.eventTs := by rw [h'.seconds, h.seconds, hat]
  have hclient : e'.clientIp = e.clientIp := by rw [h'.clientIp, h.clientIp, haddress]
  cases e
  cases e'
  rw [HttpEvent.mk.injEq]
  exact ⟨hsource, hservice, hevent, htimestamp, hseconds, hclient, hmethod, hpathText, hdecoded,
    hstatus⟩

/-- What is spooled of an event is taken in as the event, unless it is of the future. -/
theorem ingestRecord_clean {record sourceId serviceId eventId : PyJson.Value} {e : HttpEvent}
    {now : ℚ}
    (h : normalizeHttp record sourceId serviceId eventId = .ok e) (hnow : e.eventTs ≤ now + 300) :
    ingestRecord now sourceId serviceId e.clean = .ok e := by
  obtain ⟨fields, at_, address, target, h⟩ := normalizeHttp_eq_ok.mp h
  have hrest : e.clean.filter (fun m => m.1 ≠ eventIdName) = e.projection := rfl
  have hid : e.clean.lookup eventIdName = some (.str (Codec.codesOf e.eventId)) := rfl
  rw [ingestRecord, hid]
  dsimp only
  rw [hrest, ← readIdentity_eq_some h.event, h.again]
  exact if_neg (not_lt.mpr hnow)

/-- Collector and server see the same event. -/
theorem normalizeHttp_stable {record sourceId serviceId eventId : PyJson.Value} {e : HttpEvent}
    (h : normalizeHttp record sourceId serviceId eventId = .ok e) :
    normalizeHttp (.obj e.projection) sourceId serviceId eventId = .ok e ∧
    (∀ collected now : ℚ, e.eventTs ≤ collected + 300 → collected ≤ now →
      ingestRecord now sourceId serviceId e.clean = .ok e) ∧
    ∀ record' e', SameButQuery record record' →
      normalizeHttp record' sourceId serviceId eventId = .ok e' → e' = e := by
  refine ⟨?_, ?_, fun record' e' hsame h' => eq_of_sameButQuery hsame h h'⟩
  · obtain ⟨fields, at_, address, target, h⟩ := normalizeHttp_eq_ok.mp h
    exact h.again
  · intro collected now hcollected hnow
    exact ingestRecord_clean h (hcollected.trans (by gcongr))

section Witness

/-- An access record: a time with an offset, a mapped peer, a path encoded twice and a query. -/
def probeRecord : PyJson.Value := .obj [
  (Str.ofString "timestamp", .str (Str.ofString "2026-03-01T01:30:00.5+02:00")),
  (Str.ofString "client_ip", .str (Str.ofString "::ffff:192.0.2.7")),
  (Str.ofString "method", .str (Str.ofString "GET")),
  (Str.ofString "path", .str (Str.ofString "/a%2520b?token=1")),
  (Str.ofString "status", .int 404)]

/-- The event of the record. -/
def probeEvent : HttpEvent where
  sourceId := "edge".toList
  serviceId := "api".toList
  eventId := "log-1:0".toList
  timestamp := "2026-02-28T23:30:00.500000Z".toList
  eventTs := 3544642801 / 2
  clientIp := "192.0.2.7".toList
  method := "GET".toList
  path := "/a%2520b".toList
  decodedPath := "/a b".toList
  status := 404

theorem normalizeHttp_stable_probeRecord :
    normalizeHttp (.obj probeEvent.projection) (.str (Str.ofString "edge"))
      (.str (Str.ofString "api")) (.str (Str.ofString "log-1:0")) = .ok probeEvent :=
  (normalizeHttp_stable (show normalizeHttp probeRecord (.str (Str.ofString "edge"))
    (.str (Str.ofString "api")) (.str (Str.ofString "log-1:0")) = .ok probeEvent by
      decide +kernel)).1

end Witness

end RiskOps.Telemetry.Http
