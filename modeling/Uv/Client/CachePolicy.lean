import Uv.Client.CacheControl

namespace Uv.Client

/-!
# Reusing a cached response

A cache policy keeps what is needed of a request and its response to decide whether the
response may be used again for another request.  `before_request` answers that it is
fresh, that it has to be revalidated, or that the policy is for another request.  The
headers that are set for a revalidation play no part in the answer and are left out.

The directives of the presented request are to be compared with the age of the cached
response.  The code compares `min-fresh` with the time instead, and takes `max-stale` from
the request that was cached; the last part says for which inputs neither matters.
-/

structure CacheConfig where
  shared : Bool

inductive Method where
  | get
  | head
  | unrecognized
  deriving DecidableEq

structure RequestHeaders where
  cc : CacheControl
  authorization : Bool

/-- The request of a cached response. -/
structure Request where
  uri : String
  method : Method
  headers : RequestHeaders
  unixTimestamp : Nat

structure ResponseTiming where
  ageSeconds : Option Nat
  dateUnixTimestamp : Option Nat
  expiresUnixTimestamp : Option Nat
  lastModifiedUnixTimestamp : Option Nat

structure ResponseHeaders where
  cc : CacheControl
  timing : ResponseTiming

structure Response where
  status : Nat
  headers : ResponseHeaders
  unixTimestamp : Nat

structure VaryField where
  name : String
  value : List UInt8

structure CachePolicy where
  config : CacheConfig
  request : Request
  response : Response
  vary : List VaryField

/-- A request that is about to be sent, with its headers in order. -/
structure PresentedRequest where
  url : String
  method : Method
  headers : List (String × List UInt8)

namespace PresentedRequest

variable (request : PresentedRequest)

/-- The first value of a header. -/
def get (name : String) : Option (List UInt8) :=
  (request.headers.find? fun header => header.1 = name).map Prod.snd

def getAll (name : String) : List (List UInt8) :=
  (request.headers.filter fun header => header.1 = name).map Prod.snd

def cc : CacheControl :=
  cacheControl (request.getAll "cache-control")

end PresentedRequest

inductive BeforeRequest where
  | fresh
  | stale
  | noMatch
  deriving DecidableEq

namespace Response

variable (response : Response)

def headerAge : Nat := response.headers.timing.ageSeconds.getD 0

def headerDate : Nat :=
  response.headers.timing.dateUnixTimestamp.getD response.unixTimestamp

def hasFinalStatus : Bool := 200 <= response.status

end Response

def saturatingAdd (first second : Nat) : Nat := min (first + second) maxSeconds

def heuristicallyCacheableStatusCodes : List Nat :=
  [200, 203, 204, 206, 300, 301, 308, 404, 405, 410, 414, 501]

namespace CachePolicy

variable (policy : CachePolicy)

def allowsAuthorizationStorage : Bool :=
  policy.response.headers.cc.mustRevalidate || policy.response.headers.cc.isPublic ||
    policy.response.headers.cc.sMaxageSeconds.isSome

def isStorable : Bool :=
  if policy.request.method ≠ .get /\ policy.request.method ≠ .head then false
  else if !policy.response.hasFinalStatus then false
  else if policy.response.status = 206 \/ policy.response.status = 304 then false
  else if policy.request.headers.cc.noStore then false
  else if policy.response.headers.cc.noStore then false
  else if policy.config.shared && policy.response.headers.cc.isPrivate then false
  else if policy.config.shared &&
      (policy.request.headers.authorization && !policy.allowsAuthorizationStorage) then false
  else if policy.response.headers.cc.isPublic then true
  else if !policy.config.shared && policy.response.headers.cc.isPrivate then true
  else if policy.response.headers.timing.expiresUnixTimestamp.isSome then true
  else if policy.response.headers.cc.maxAgeSeconds.isSome then true
  else if policy.config.shared && policy.response.headers.cc.sMaxageSeconds.isSome then true
  else heuristicallyCacheableStatusCodes.contains policy.response.status

/-- `ArchivedVary::matches` -/
def varyMatches (request : PresentedRequest) : Bool :=
  policy.vary.all fun field =>
    field.name ≠ "*" && field.value = (request.get field.name).getD []

variable (now : Nat)

def age : Nat :=
  let apparentAge := policy.response.unixTimestamp - policy.response.headerDate
  let responseDelay := policy.response.unixTimestamp - policy.request.unixTimestamp
  let correctedAgeValue := saturatingAdd policy.response.headerAge responseDelay
  let correctedInitialAge := max apparentAge correctedAgeValue
  let residentAge := now - policy.response.unixTimestamp
  saturatingAdd correctedInitialAge residentAge

def freshnessLifetime : Nat :=
  match (if policy.config.shared then policy.response.headers.cc.sMaxageSeconds else none) with
  | some sMaxage => sMaxage
  | none =>
    match policy.response.headers.cc.maxAgeSeconds with
    | some maxAge => maxAge
    | none =>
      match policy.response.headers.timing.expiresUnixTimestamp with
      | some expires => expires - policy.response.headerDate
      | none =>
        if policy.response.headers.timing.lastModifiedUnixTimestamp.isSome then 600 else 0

def allowsStale : Bool :=
  if policy.response.headers.cc.mustRevalidate then false
  else
    match policy.request.headers.cc.maxStaleSeconds with
    | some maxStale => policy.age now - policy.freshnessLifetime <= maxStale
    | none => false

variable (request : PresentedRequest)

def isFresh : Bool :=
  let freshnessLifetime := policy.freshnessLifetime
  let age := policy.age now
  let reqcc := request.cc
  if !policy.response.headers.cc.immutable &&
      (reqcc.noCache || reqcc.maxAgeSeconds.any (fun maxAge => maxAge < age) ||
        reqcc.minFreshSeconds.any fun minFresh => freshnessLifetime - now < minFresh) then false
  else if freshnessLifetime <= age && !policy.allowsStale now then false
  else true

/-- The answer for a request at a time in seconds since the epoch. -/
def beforeRequest :
    BeforeRequest :=
  if !policy.isStorable then .noMatch
  else if policy.request.uri ≠ request.url then .noMatch
  else if request.method ≠ .get /\ request.method ≠ .head then .noMatch
  else if !policy.varyMatches request then .stale
  else if policy.response.headers.cc.noCache then .stale
  else if policy.isFresh now request then .fresh
  else .stale

/-! ## The standard -/

/-- What a response has to meet to be stored. -/
structure Storable : Prop where
  method : policy.request.method = .get \/ policy.request.method = .head
  final : 200 <= policy.response.status
  /-- Partial content and the answer that nothing was modified are not understood. -/
  understood : policy.response.status ≠ 206 /\ policy.response.status ≠ 304
  requestStores : policy.request.headers.cc.noStore = false
  responseStores : policy.response.headers.cc.noStore = false
  shareable : policy.config.shared = true -> policy.response.headers.cc.isPrivate = false
  authorized : policy.config.shared = true -> policy.request.headers.authorization = true ->
    policy.response.headers.cc.mustRevalidate = true \/
      policy.response.headers.cc.isPublic = true \/
      policy.response.headers.cc.sMaxageSeconds.isSome = true
  indicated : policy.response.headers.cc.isPublic = true \/
    (policy.config.shared = false /\ policy.response.headers.cc.isPrivate = true) \/
    policy.response.headers.timing.expiresUnixTimestamp.isSome = true \/
    policy.response.headers.cc.maxAgeSeconds.isSome = true \/
    (policy.config.shared = true /\ policy.response.headers.cc.sMaxageSeconds.isSome = true) \/
    policy.response.status ∈ heuristicallyCacheableStatusCodes

/-- Every header that the response nominates has the value in the presented request that
the policy has recorded: its first line, and nothing if the header is absent. -/
def VaryMatches : Prop :=
  ∀ field ∈ policy.vary, field.name ≠ "*" /\ (request.getAll field.name).headD [] = field.value

/-- The age in exact arithmetic, where what cannot be represented counts as the largest
number of seconds. -/
def currentAge : Nat :=
  let timing := policy.response.headers.timing
  let responseTime := policy.response.unixTimestamp
  let apparentAge := responseTime - timing.dateUnixTimestamp.getD responseTime
  let correctedAgeValue :=
    timing.ageSeconds.getD 0 + (responseTime - policy.request.unixTimestamp)
  min (max apparentAge correctedAgeValue + (now - responseTime)) maxSeconds

/-- The lifetimes that a response can state, in the order of their precedence; the last
one is the heuristic of ten minutes. -/
def lifetimes : List (Option Nat) :=
  let cc := policy.response.headers.cc
  let timing := policy.response.headers.timing
  [if policy.config.shared then cc.sMaxageSeconds else none, cc.maxAgeSeconds,
    timing.expiresUnixTimestamp.map
      (· - timing.dateUnixTimestamp.getD policy.response.unixTimestamp),
    timing.lastModifiedUnixTimestamp.map fun _ => 600]

/-- The first lifetime that is stated, and none at all otherwise. -/
def lifetime : Nat := policy.lifetimes.reduceOption.headD 0

/-- A number of seconds that a response may be stale. -/
def Covers (maxStale : Option Nat) (staleness : Nat) : Prop :=
  ∃ seconds, maxStale = some seconds /\ staleness <= seconds

/-- When a response may be used again without revalidation. -/
structure Reusable (policy : CachePolicy) (now : Nat) (request : PresentedRequest) : Prop where
  storable : policy.Storable
  varyMatches : policy.VaryMatches request
  validated : policy.response.headers.cc.noCache = false
  /-- The presented request does not ask for more, unless the response is immutable. -/
  demanded : policy.response.headers.cc.immutable = true \/
    (request.cc.noCache = false /\
      (∀ maxAge, request.cc.maxAgeSeconds = some maxAge -> policy.currentAge now <= maxAge) /\
      ∀ minFresh, request.cc.minFreshSeconds = some minFresh ->
        policy.currentAge now + minFresh <= policy.lifetime)
  fresh : policy.currentAge now < policy.lifetime \/
    (policy.response.headers.cc.mustRevalidate = false /\
      Covers request.cc.maxStaleSeconds (policy.currentAge now - policy.lifetime))

/-! ## What the code computes -/

lemma isStorable_iff : policy.isStorable = true <-> policy.Storable := by
  constructor
  · intro storable
    unfold isStorable allowsAuthorizationStorage Response.hasFinalStatus at storable
    constructor <;> grind
  · intro storable
    have method := storable.method
    have indicated := storable.indicated
    unfold isStorable allowsAuthorizationStorage Response.hasFinalStatus
    grind [storable.final, storable.understood, storable.requestStores, storable.responseStores,
      storable.shareable, storable.authorized]

lemma varyMatches_iff : policy.varyMatches request = true <-> policy.VaryMatches request := by
  have first : ∀ name, (request.get name).getD [] = (request.getAll name).headD [] := by
    intro name
    rw [PresentedRequest.get, PresentedRequest.getAll, <- List.head?_filter, <- List.head?_map,
      List.headD_eq_head?_getD]
  simp only [varyMatches, VaryMatches, List.all_eq_true, Bool.and_eq_true, decide_eq_true_eq, first]
  simp only [@eq_comm _ (VaryField.value _)]

/-- Cutting off each sum is cutting off the last one. -/
lemma age_eq : policy.age now = policy.currentAge now := by
  simp only [age, currentAge, saturatingAdd, Response.headerAge, Response.headerDate]
  omega

lemma freshnessLifetime_eq : policy.freshnessLifetime = policy.lifetime := by
  rw [freshnessLifetime, lifetime, lifetimes, Response.headerDate]
  generalize (if policy.config.shared then policy.response.headers.cc.sMaxageSeconds else none) =
    sMaxage
  cases sMaxage with
  | some sMaxage => rfl
  | none =>
    cases policy.response.headers.cc.maxAgeSeconds with
    | some maxAge => rfl
    | none =>
      cases policy.response.headers.timing.expiresUnixTimestamp with
      | some expires => rfl
      | none => cases policy.response.headers.timing.lastModifiedUnixTimestamp <;> rfl

lemma allowsStale_iff :
    policy.allowsStale now <->
      policy.response.headers.cc.mustRevalidate = false /\
        Covers policy.request.headers.cc.maxStaleSeconds
          (policy.currentAge now - policy.lifetime) := by
  unfold allowsStale Covers
  rw [age_eq, freshnessLifetime_eq]
  cases policy.response.headers.cc.mustRevalidate with
  | true => simp
  | false =>
    cases policy.request.headers.cc.maxStaleSeconds with
    | none => simp
    | some maxStale => simp

lemma any_eq_false_iff {seconds : Option Nat} {test : Nat -> Bool} :
    seconds.any test = false <-> ∀ value, seconds = some value -> test value = false := by
  cases seconds <;> simp

/-- What the code asks of the presented request, with the time in the place of the age. -/
def CodeDemands : Prop :=
  policy.response.headers.cc.immutable = true \/ ((request.cc.noCache = false /\
      ∀ maxAge, request.cc.maxAgeSeconds = some maxAge -> policy.currentAge now <= maxAge) /\
    ∀ minFresh, request.cc.minFreshSeconds = some minFresh -> minFresh <= policy.lifetime - now)

lemma isFresh_iff :
    policy.isFresh now request <->
      policy.CodeDemands now request /\
        (policy.currentAge now < policy.lifetime \/ policy.allowsStale now) := by
  have demands : (request.cc.noCache ||
        request.cc.maxAgeSeconds.any (fun maxAge => maxAge < policy.currentAge now) ||
        request.cc.minFreshSeconds.any
          fun minFresh => policy.lifetime - now < minFresh) = false <->
      (request.cc.noCache = false /\
        ∀ maxAge, request.cc.maxAgeSeconds = some maxAge -> policy.currentAge now <= maxAge) /\
        ∀ minFresh, request.cc.minFreshSeconds = some minFresh ->
          minFresh <= policy.lifetime - now := by
    simp only [Bool.or_eq_false_iff, any_eq_false_iff, decide_eq_false_iff_not, Nat.not_lt]
  rw [CodeDemands, <- demands, isFresh, age_eq, freshnessLifetime_eq]
  generalize (request.cc.noCache ||
    request.cc.maxAgeSeconds.any (fun maxAge => maxAge < policy.currentAge now) ||
    request.cc.minFreshSeconds.any fun minFresh => policy.lifetime - now < minFresh) = demanded
  by_cases fresh : policy.currentAge now < policy.lifetime
  · have notOld : ¬policy.lifetime <= policy.currentAge now := Nat.not_le.mpr fresh
    cases policy.response.headers.cc.immutable <;> cases demanded <;> simp [fresh, notOld]
  · have old : policy.lifetime <= policy.currentAge now := Nat.not_lt.mp fresh
    cases policy.response.headers.cc.immutable <;> cases demanded <;>
      cases policy.allowsStale now <;> simp [fresh, old]

variable {request : PresentedRequest}

/-- When the code answers that the response is fresh. -/
lemma beforeRequest_eq_fresh {policy : CachePolicy} {now : Nat}
    (sameUri : policy.request.uri = request.url)
    (cacheable : request.method = .get \/ request.method = .head) :
    policy.beforeRequest now request = .fresh <->
      (policy.Storable /\ policy.VaryMatches request /\
        policy.response.headers.cc.noCache = false) /\
      policy.CodeDemands now request /\
      (policy.currentAge now < policy.lifetime \/
        (policy.response.headers.cc.mustRevalidate = false /\
          Covers policy.request.headers.cc.maxStaleSeconds
            (policy.currentAge now - policy.lifetime))) := by
  have allowed : ¬(request.method ≠ .get /\ request.method ≠ .head) := by tauto
  rw [<- allowsStale_iff, <- isFresh_iff, <- isStorable_iff, <- varyMatches_iff, beforeRequest,
    if_neg (not_not.mpr sameUri), if_neg allowed]
  cases policy.isStorable <;> cases policy.varyMatches request <;>
    cases policy.response.headers.cc.noCache <;> cases policy.isFresh now request <;> simp

/-! ## Where the two comparisons do not matter -/

/-- Both numbers of seconds cover the staleness, or none does. -/
def CoverAlike (first second : Option Nat) (staleness : Nat) : Prop :=
  (Covers first staleness /\ Covers second staleness) \/
    ((∀ seconds, first = some seconds -> seconds < staleness) /\
      ∀ seconds, second = some seconds -> seconds < staleness)

/-- The inputs on which neither comparison changes the answer.  Reuse is refused or the
request is a reload anyway; or the response is fresh, and no time has to be left, or there
is enough or too little of it both from the epoch and from now; or it is stale and has to
be revalidated; or it is stale, no time has to be left and both requests tolerate it or
none does; or it is stale, time has to be left and one of the two comparisons refuses
it. -/
def Unaffected (policy : CachePolicy) (now : Nat) (request : PresentedRequest) : Prop :=
  ¬policy.Storable \/ ¬policy.VaryMatches request \/
  policy.response.headers.cc.noCache = true \/
  (policy.response.headers.cc.immutable = false /\
    (request.cc.noCache = true \/ ∃ maxAge,
      request.cc.maxAgeSeconds = some maxAge /\ maxAge < policy.currentAge now)) \/
  (policy.currentAge now < policy.lifetime /\
    (policy.response.headers.cc.immutable = true \/ ∀ minFresh,
      request.cc.minFreshSeconds = some minFresh ->
        minFresh = 0 \/ max now (policy.currentAge now) + minFresh <= policy.lifetime \/
          policy.lifetime < min now (policy.currentAge now) + minFresh)) \/
  (policy.lifetime <= policy.currentAge now /\
    (policy.response.headers.cc.mustRevalidate = true \/
    ((policy.response.headers.cc.immutable = true \/ request.cc.minFreshSeconds = none \/
        (request.cc.minFreshSeconds = some 0 /\ policy.currentAge now = policy.lifetime)) /\
      CoverAlike policy.request.headers.cc.maxStaleSeconds request.cc.maxStaleSeconds
        (policy.currentAge now - policy.lifetime)) \/
    (policy.response.headers.cc.immutable = false /\ ∃ minFresh,
      request.cc.minFreshSeconds = some minFresh /\
        (0 < minFresh \/ policy.lifetime < policy.currentAge now) /\
        (0 < minFresh /\ policy.lifetime < now + minFresh \/
          ∀ seconds, policy.request.headers.cc.maxStaleSeconds = some seconds ->
            seconds < policy.currentAge now - policy.lifetime))))

lemma not_covers_iff {maxStale : Option Nat} {staleness : Nat} :
    ¬Covers maxStale staleness <-> ∀ seconds, maxStale = some seconds -> seconds < staleness := by
  simp only [Covers, not_exists, not_and, Nat.not_le]

lemma coverAlike_iff {first second : Option Nat} {staleness : Nat} :
    CoverAlike first second staleness <-> (Covers first staleness <-> Covers second staleness) := by
  rw [CoverAlike, <- not_covers_iff, <- not_covers_iff]
  tauto

lemma reusable_iff {policy : CachePolicy} {now : Nat} :
    policy.Reusable now request <->
      (policy.Storable /\ policy.VaryMatches request /\
        policy.response.headers.cc.noCache = false) /\
      (policy.response.headers.cc.immutable = true \/ ((request.cc.noCache = false /\
          ∀ maxAge, request.cc.maxAgeSeconds = some maxAge -> policy.currentAge now <= maxAge) /\
        ∀ minFresh, request.cc.minFreshSeconds = some minFresh ->
          policy.currentAge now + minFresh <= policy.lifetime)) /\
      (policy.currentAge now < policy.lifetime \/
        (policy.response.headers.cc.mustRevalidate = false /\
          Covers request.cc.maxStaleSeconds (policy.currentAge now - policy.lifetime))) := by
  constructor
  · intro reusable
    refine ⟨⟨reusable.storable, reusable.varyMatches, reusable.validated⟩, ?_, reusable.fresh⟩
    exact reusable.demanded.imp_right fun demands => ⟨⟨demands.1, demands.2.1⟩, demands.2.2⟩
  · rintro ⟨⟨storable, varyMatches, validated⟩, demanded, fresh⟩
    exact ⟨storable, varyMatches, validated,
      demanded.imp_right fun demands => ⟨demands.1.1, demands.1.2, demands.2⟩, fresh⟩

/-- Two answers that differ in one comparison and in one tolerance, as propositions. -/
lemma answers_agree_iff {usable immutable undemanding lenient stored presented : Prop}
    {minFresh : Option Nat} {age lifetime now : Nat} :
    ((usable /\ (immutable \/ (undemanding /\
          ∀ seconds, minFresh = some seconds -> seconds <= lifetime - now)) /\
        (age < lifetime \/ (lenient /\ stored))) <-> (usable /\ (immutable \/ (undemanding /\
          ∀ seconds, minFresh = some seconds -> age + seconds <= lifetime)) /\
        (age < lifetime \/ (lenient /\ presented)))) <->
    (¬usable \/ (¬immutable /\ ¬undemanding) \/
      (age < lifetime /\ (immutable \/ ∀ seconds, minFresh = some seconds ->
        seconds = 0 \/ max now age + seconds <= lifetime \/ lifetime < min now age + seconds)) \/
      (lifetime <= age /\ (¬lenient \/
        ((immutable \/ minFresh = none \/ (minFresh = some 0 /\ age = lifetime)) /\
          (stored <-> presented)) \/ (¬immutable /\ ∃ seconds, minFresh = some seconds /\
          (0 < seconds \/ lifetime < age) /\
          (0 < seconds /\ lifetime < now + seconds \/ ¬stored))))) := by
  by_cases base : usable
  case neg => simp [base]
  by_cases fresh : age < lifetime
  · -- Only the time that is left matters.
    have notOld : ¬lifetime <= age := Nat.not_le.mpr fresh
    by_cases fixed : immutable
    · simp [base, fixed, fresh]
    by_cases open' : undemanding
    case neg => simp [fixed, open']
    cases minFresh with
    | none => simp [base, fixed, open', fresh, notOld]
    | some seconds =>
      simp only [base, fixed, open', fresh, notOld, Option.some.injEq, forall_eq', true_and,
        true_or, and_true, and_false, false_or, false_and, or_false, not_true]
      omega
  · have old : lifetime <= age := Nat.not_lt.mp fresh
    by_cases fixed : immutable
    · simp only [base, fixed, fresh, old, true_and, true_or, false_or, not_true, false_and,
        or_false]
      tauto
    by_cases open' : undemanding
    case neg => simp [fixed, open']
    cases minFresh with
    | none =>
      simp [base, fixed, open', fresh, old]
      tauto
    | some seconds =>
      simp [base, fixed, open', fresh, old]
      have left : seconds <= lifetime - now <-> ¬(0 < seconds /\ lifetime < now + seconds) := by
        omega
      -- No time is left, so the request is met only if it asks for none.
      by_cases none : seconds = 0 /\ age = lifetime
      · rcases none with ⟨rfl, rfl⟩
        simp
        tauto
      · have never : ¬age + seconds <= lifetime := by omega
        have demands : 0 < seconds \/ lifetime < age := by omega
        simp [never, demands, none]
        rw [left]
        tauto

/-- A response with a lifetime of ten minutes, received in November 2023. -/
def tenMinutes : CachePolicy where
  config := ⟨false⟩
  request := ⟨"https://example.org/", .get, ⟨CacheControl.empty, false⟩, 1700000000⟩
  response := ⟨200, ⟨{ CacheControl.empty with maxAgeSeconds := some 600 },
    ⟨none, none, none, none⟩⟩, 1700000000⟩
  vary := []

/-- A request for it with one `Cache-Control` header. -/
def presented (header : String) : PresentedRequest :=
  ⟨"https://example.org/", .get, [("cache-control", header.toUTF8.data.toList)]⟩

end CachePolicy

end Uv.Client
