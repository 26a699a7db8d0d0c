import Uv.Auth.Realm
import Uv.Auth.UrlTrie

namespace Uv.Auth

open Option List

/-!
# The credentials cache

Credentials are kept per realm and username, and per URL.  The URL cache is a trie
whose first label is the realm and whose other labels are the non-empty segments of
the path.  It stores what an abstract cache would: for each realm and path the
credentials that were inserted last.  A lookup takes the shortest stored path, and a
given username has to match.
-/

structure Username where
  value : Option String
  deriving DecidableEq, Repr

namespace Username

/-- An empty username is none. -/
def new (value : Option String) : Username := ⟨value.filter fun name => !name.isEmpty⟩

def none : Username := new .none

def isNone (username : Username) : Bool := username.value.isNone
def isSome (username : Username) : Bool := username.value.isSome

end Username

inductive Credentials where
  | basic (username : Username) (password : Option String)
  | bearer (token : List UInt8)
  deriving DecidableEq, Repr

namespace Credentials

def username : Credentials -> Option String
  | .basic username _ => username.value
  | .bearer _ => none

def toUsername : Credentials -> Username
  | .basic username _ => username
  | .bearer _ => .none

def password : Credentials -> Option String
  | .basic _ password => password
  | .bearer _ => none

def isAuthenticated : Credentials -> Bool
  | .basic _ password => password.isSome
  | .bearer token => !token.isEmpty

def isEmpty : Credentials -> Bool
  | .basic username password => username.isNone && password.isNone
  | .bearer token => token.isEmpty

end Credentials

/-- Credentials, or one of the signers of cloud providers. -/
inductive Authentication (Signer : Type) where
  | credentials (credentials : Credentials)
  | awsSigner (signer : Signer)
  | gcsSigner (signer : Signer)
  | azureSigner (signer : Signer)
  deriving DecidableEq, Repr

namespace Authentication

variable {Signer : Type}

def password : Authentication Signer -> Option String
  | .credentials known => known.password
  | _ => none

def username : Authentication Signer -> Option String
  | .credentials known => known.username
  | _ => none

def toUsername : Authentication Signer -> Username
  | .credentials known => known.toUsername
  | _ => .none

def isAuthenticated : Authentication Signer -> Bool
  | .credentials known => known.isAuthenticated
  | _ => true

def isEmpty : Authentication Signer -> Bool
  | .credentials known => known.isEmpty
  | _ => false

end Authentication

/-! ## The cache -/

/-- The non-empty segments of the path, if the URL has a path hierarchy. -/
def SafeUrl.path (url : SafeUrl) : Option (List String) :=
  url.pathSegments.map fun segments => segments.filter fun item => !item.isEmpty

/-- The way to a URL in the trie. -/
def SafeUrl.components (url : SafeUrl) : Option (List String) :=
  url.path.map fun path => (Realm.from url).display :: path

structure CredentialsCache (Signer : Type) where
  realms : Realm × Username -> Option (Authentication Signer)
  urls : UrlTrie (Authentication Signer)

namespace CredentialsCache

variable {Signer : Type}

def new : CredentialsCache Signer := ⟨fun _ => none, .new⟩

variable (cache : CredentialsCache Signer)

/-- Update the entry of a realm.  A username alone does not replace an entry with a
password. -/
def insertRealm (key : Realm × Username)
    (credentials : Authentication Signer) : CredentialsCache Signer :=
  if credentials.isEmpty then cache
  else if credentials.isAuthenticated ||
      (cache.realms key).all fun existing => existing.password.isNone then
    { cache with realms := Function.update cache.realms key (some credentials) }
  else cache

def insert (cache : CredentialsCache Signer) (url : SafeUrl)
    (credentials : Authentication Signer) : CredentialsCache Signer :=
  if credentials.isEmpty then cache
  else
    let username := credentials.toUsername
    let cache := if username.isSome then cache.insertRealm (.from url, username) credentials
      else cache
    let cache := cache.insertRealm (.from url, .none) credentials
    match url.components with
    | none => cache
    | some components => { cache with urls := cache.urls.insert components credentials }

/-- The credentials for a URL.  A given username has to be theirs, and then they need
a password. -/
def getUrl (url : SafeUrl) (username : Username) :
    Option (Authentication Signer) :=
  match url.components.bind cache.urls.get with
  | none => none
  | some credentials =>
    if username.isNone || username.value == credentials.username then
      if username.isSome && credentials.password.isNone then none else some credentials
    else none

def insertAll (insertions : List (SafeUrl × Authentication Signer)) : CredentialsCache Signer :=
  insertions.foldl (fun cache insertion => cache.insert insertion.1 insertion.2) cache

/-! ## What the cache stores -/

/-- The insertion is for the realm and the path. -/
def isFor (realm : Realm) (path : List String) (insertion : SafeUrl × Authentication Signer) :
    Bool :=
  !insertion.2.isEmpty && decide (Realm.from insertion.1 = realm /\ insertion.1.path = some path)

variable (insertions : List (SafeUrl × Authentication Signer))

/-- The credentials that were inserted last for a realm and a path.  Credentials
without any content do not count. -/
def lastInserted (realm : Realm) (path : List String) : Option (Authentication Signer) :=
  (insertions.reverse.find? (isFor realm path)).map Prod.snd

lemma lastInserted_concat
    (insertion : SafeUrl × Authentication Signer) (realm : Realm) (path : List String) :
    lastInserted (insertions ++ [insertion]) realm path =
      if isFor realm path insertion then some insertion.2 else lastInserted insertions realm path := by
  rw [lastInserted, reverse_append, reverse_singleton, singleton_append,
    find?_cons]
  cases isFor realm path insertion <;> rfl

/-- The trie stores what was inserted last, for the realm of every URL. -/
structure Stores (cache : CredentialsCache Signer)
    (insertions : List (SafeUrl × Authentication Signer)) : Prop where
  shape : ∃ paths, cache.urls.Shape paths
  stored : ∀ (url : SafeUrl) (path : List String),
    cache.urls.stored ((Realm.from url).display :: path) =
      lastInserted insertions (.from url) path

lemma insertRealm_urls (key : Realm × Username) (credentials : Authentication Signer) :
    (cache.insertRealm key credentials).urls = cache.urls := by
  rw [insertRealm]
  split
  · rfl
  · split <;> rfl

/-- An insertion changes the trie at the components of its URL only. -/
lemma insert_urls (url : SafeUrl) (credentials : Authentication Signer) :
    (cache.insert url credentials).urls =
      if credentials.isEmpty then cache.urls
      else match url.components with
        | none => cache.urls
        | some components => cache.urls.insert components credentials := by
  rw [insert]
  split
  · rfl
  · dsimp only
    cases url.components with
    | none | some components =>
      dsimp only
      rw [insertRealm_urls]
      split
      · rw [insertRealm_urls]
      · rfl

variable {cache : CredentialsCache Signer} {insertions : List (SafeUrl × Authentication Signer)}

lemma Stores.insert (stores : cache.Stores insertions)
    (insertion : SafeUrl × Authentication Signer) :
    (cache.insert insertion.1 insertion.2).Stores (insertions ++ [insertion]) := by
  rcases stores with ⟨⟨paths, shape⟩, stored⟩
  have unchanged : (∀ realm path, isFor realm path insertion = false) ->
      (cache.insert insertion.1 insertion.2).urls = cache.urls ->
      (cache.insert insertion.1 insertion.2).Stores (insertions ++ [insertion]) := by
    intro irrelevant same
    refine ⟨⟨paths, same ▸ shape⟩, fun url path => ?_⟩
    rw [same, stored, lastInserted_concat, irrelevant]
    rfl
  have urls := cache.insert_urls insertion.1 insertion.2
  cases empty : insertion.2.isEmpty with
  | true =>
    rw [empty] at urls
    exact unchanged (fun realm path => by rw [isFor, empty]; rfl) urls
  | false =>
    rw [empty] at urls
    cases known : insertion.1.path with
    | none =>
      rw [SafeUrl.components, known] at urls
      refine unchanged (fun realm path => ?_) urls
      simp [isFor, known]
    | some before =>
      rw [SafeUrl.components, known] at urls
      rcases shape.insert ((Realm.from insertion.1).display :: before) insertion.2
        with ⟨more, grown, writes⟩
      replace urls : (cache.insert insertion.1 insertion.2).urls = cache.urls.insert
        ((Realm.from insertion.1).display :: before) insertion.2 := urls
      refine ⟨⟨paths ++ more, urls ▸ grown⟩, fun url path => ?_⟩
      rw [urls, writes, stored, lastInserted_concat]
      apply if_congr _ rfl rfl
      simp only [isFor, empty, known, Bool.not_false, Bool.true_and, decide_eq_true_eq,
        cons.injEq, some.injEq]
      constructor
      · exact fun ⟨label, same⟩ => ⟨(Realm.display_injective label).symm, same.symm⟩
      · exact fun ⟨realm, same⟩ => ⟨by rw [realm], same.symm⟩

lemma stores_new : (new : CredentialsCache Signer).Stores [] where
  shape := ⟨_, UrlTrie.shape_new⟩
  stored _ _ := UrlTrie.stored_new _

/-- Whatever is inserted, and in whatever order, the trie stores it. -/
lemma insertAll_stores (insertions : List (SafeUrl × Authentication Signer)) :
    ((new : CredentialsCache Signer).insertAll insertions).Stores insertions := by
  induction insertions using reverseRecOn with
  | nil => exact stores_new
  | append_singleton insertions insertion ih =>
    rw [insertAll, foldl_append]
    exact ih.insert insertion

/-- The credentials may be used for the username: none is asked for, or it is theirs
and they have a password. -/
def Suits (credentials : Authentication Signer) (username : Username) : Prop :=
  ∀ name, username.value = some name ->
    credentials.username = some name /\ credentials.password ≠ none

/-- The path is the shortest beginning of the URL's path for which credentials were
inserted in the realm of the URL, and these are the last ones. -/
structure IsAnswer (insertions : List (SafeUrl × Authentication Signer)) (url : SafeUrl)
    (before : List String) (credentials : Authentication Signer) : Prop where
  beginning : ∃ path, url.path = some path /\ before <+: path
  last : lastInserted insertions (.from url) before = some credentials
  shortest : ∀ shorter, shorter <+: before -> shorter ≠ before ->
    lastInserted insertions (.from url) shorter = none

lemma Stores.get_eq_some_iff (stores : cache.Stores insertions)
    (url : SafeUrl) (credentials : Authentication Signer) :
    url.components.bind cache.urls.get = some credentials <->
      ∃ before, IsAnswer insertions url before credentials := by
  rw [SafeUrl.components]
  cases known : url.path with
  | none =>
    refine iff_of_false (some_ne_none _).symm ?_
    rintro ⟨before, ⟨path, found, _⟩, _, _⟩
    cases known.symm.trans found
  | some path =>
    change cache.urls.getFrom 0 ((Realm.from url).display :: path) = some credentials <-> _
    rw [UrlTrie.getFrom_eq_some_iff _ _ fun empty => absurd empty (cons_ne_nil _ _)]
    constructor
    · rintro ⟨way, before, shortest⟩
      rcases prefix_cons_iff.mp before with rfl | ⟨tail, rfl, tailBefore⟩
      · exact absurd rfl shortest.nonempty
      refine ⟨tail, ⟨path, known, tailBefore⟩, (stores.stored url tail).symm.trans shortest.found,
        fun shorter shorterBefore different => ?_⟩
      rw [<- stores.stored]
      exact shortest.least _ (cons_ne_nil _ _)
        (cons_prefix_cons.mpr ⟨rfl, shorterBefore⟩) fun equal =>
          different (cons.inj equal).2
    · rintro ⟨before, ⟨path', found, beginning⟩, last, shortest⟩
      cases known.symm.trans found
      refine ⟨(Realm.from url).display :: before, cons_prefix_cons.mpr ⟨rfl, beginning⟩,
        cons_ne_nil _ _, (stores.stored url before).trans last, ?_⟩
      intro shorter nonempty shorterBefore different
      rcases prefix_cons_iff.mp shorterBefore with rfl | ⟨tail, rfl, tailBefore⟩
      · exact absurd rfl nonempty
      · exact (stores.stored url tail).trans
          (shortest tail tailBefore fun equal => different (by rw [equal]))

/-- A lookup filters what the trie returns by the username. -/
lemma getUrl_eq_some_iff_get (cache : CredentialsCache Signer) (url : SafeUrl)
    (username : Username) (credentials : Authentication Signer) :
    cache.getUrl url username = some credentials <->
      url.components.bind cache.urls.get = some credentials /\ Suits credentials username := by
  rw [getUrl]
  cases url.components.bind cache.urls.get with
  | none => simp
  | some found =>
    rcases username with ⟨name⟩
    cases name with
    | none => simp [Suits, Username.isNone, Username.isSome]
    | some name =>
      simp only [Username.isNone, Username.isSome, Suits, isNone_some, Bool.false_or,
        isSome_some, Bool.true_and, beq_iff_eq, some.injEq, forall_eq']
      by_cases same : found.username = some name
      · cases secret : found.password with
        | none =>
          simp only [same, if_true, isNone_none]
          refine iff_of_false (some_ne_none _).symm ?_
          rintro ⟨rfl, _, present⟩
          exact present secret
        | some password =>
          simp only [same, if_true, isNone_some, Bool.false_eq_true, if_false, some.injEq]
          refine ⟨?_, And.left⟩
          rintro rfl
          exact ⟨rfl, same, by rw [secret]; exact some_ne_none _⟩
      · rw [if_neg (Ne.symm same)]
        refine iff_of_false (some_ne_none _).symm ?_
        rintro ⟨rfl, equal, _⟩
        exact same equal

/-- After any sequence of insertions, the credentials for a URL are the last ones that
were inserted for the shortest beginning of its path in its realm, if they suit the
username.  Otherwise there are none. -/
theorem getUrl_insertAll_iff (insertions : List (SafeUrl × Authentication Signer)) (url : SafeUrl)
    (username : Username) (credentials : Authentication Signer) :
    ((new : CredentialsCache Signer).insertAll insertions).getUrl url username =
        some credentials <->
      (∃ before, IsAnswer insertions url before credentials) /\ Suits credentials username := by
  rw [getUrl_eq_some_iff_get, (insertAll_stores insertions).get_eq_some_iff]

end CredentialsCache

end Uv.Auth
