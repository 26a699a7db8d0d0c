import Uv.Library.Text

namespace Uv.Auth

open Library Library.Text

/-!
# Realms

A realm is the scheme, the host and the port of a URL.  Credentials are kept per
realm, and the URL cache uses the text of the realm as a label.  The text has to
tell realms apart.  It does because of what a URL parser guarantees: a scheme has no
colon, an IPv6 address stands in brackets and other hosts have no colon, and only a
URL with a host has a port.
-/

/-- The text of a host: an address in brackets, or a name without colons. -/
inductive IsHost : List Char -> Prop
  | address {inner : List Char} (closed : ']' ∉ inner) : IsHost ('[' :: inner ++ [']'])
  | name {first : Char} {rest : List Char} (open_ : first ≠ '[') (plain : ':' ∉ first :: rest) :
      IsHost (first :: rest)

/-- The parts of a parsed URL that the cache reads.  A port is present only if it is
not the default port of the scheme.  A URL without a path hierarchy has no segments. -/
structure SafeUrl where
  scheme : String
  host : Option String
  port : Option UInt16
  pathSegments : Option (List String)
  scheme_plain : ':' ∉ scheme.toList
  host_isHost : ∀ name, host = some name -> IsHost name.toList
  port_of_host : host = none -> port = none

structure Realm where
  scheme : String
  host : Option String
  port : Option UInt16
  deriving DecidableEq, Repr

/-- The realm of a URL. -/
def Realm.from (url : SafeUrl) : Realm := ⟨url.scheme, url.host, url.port⟩

def Realm.display (realm : Realm) : String :=
  match realm.port with
  | some port => realm.scheme ++ "://" ++ realm.host.getD "" ++ ":" ++ toString port.toNat
  | none => realm.scheme ++ "://" ++ realm.host.getD ""

/-! ## The text tells realms apart -/

def portText : Option UInt16 -> List Char
  | some port => ':' :: decimal port.toNat
  | none => []

lemma portText_injective : Function.Injective portText := by
  intro port port' same
  cases port with
  | none =>
    cases port' with
    | none => rfl
    | some port' => cases same
  | some port =>
    cases port' with
    | none => cases same
    | some port' =>
      have digits : decimal port.toNat = decimal port'.toNat := (List.cons.inj same).2
      have number := congrArg valueOf digits
      rw [valueOf_decimal, valueOf_decimal] at number
      rw [UInt16.toNat_inj.mp number]

/-- A host ends where the text of a port starts. -/
lemma IsHost.append_inj {host host' : List Char} {port port' : Option UInt16}
    (isHost : IsHost host) (isHost' : IsHost host')
    (same : host ++ portText port = host' ++ portText port') : host = host' /\ port = port' := by
  cases isHost with
  | @address inner closed =>
    cases isHost' with
    | @address inner' closed' =>
      have cut : ∀ {inner : List Char} (port : Option UInt16), ']' ∉ inner ->
          splitOnce ']' ('[' :: inner ++ [']'] ++ portText port) =
            some ('[' :: inner, portText port) := by
        intro inner port closed
        rw [List.append_assoc]
        exact splitOnce_append _ fun mem =>
          (List.mem_cons.mp mem).elim (by decide) closed
      have pieces := (cut port closed).symm.trans ((congrArg _ same).trans (cut port' closed'))
      simp only [Option.some.injEq, Prod.mk.injEq] at pieces
      exact ⟨by rw [pieces.1], portText_injective pieces.2⟩
    | name open_ plain => exact absurd (List.cons.inj same).1.symm open_
  | @name first rest open_ plain =>
    cases isHost' with
    | address closed => exact absurd (List.cons.inj same).1 open_
    | @name first' rest' open_' plain' =>
      -- Without a port there is no colon to cut at.
      have cut : ∀ {name : List Char} (port : Option UInt16), ':' ∉ name ->
          (name ++ portText port).takeWhile (· != ':') = name /\
            (name ++ portText port).dropWhile (· != ':') = portText port := by
        intro name port plain
        have passed : ∀ c ∈ name, (c != ':') :=
          fun c inside => bne_iff_ne.mpr fun same => plain (same ▸ inside)
        rw [List.takeWhile_append_of_pos passed, List.dropWhile_append_of_pos passed]
        cases port <;> simp [portText]
      have front := (cut port plain).1.symm.trans ((congrArg _ same).trans (cut port' plain').1)
      have back := (cut port plain).2.symm.trans ((congrArg _ same).trans (cut port' plain').2)
      exact ⟨front, portText_injective back⟩

lemma IsHost.append_ne_nil {host : List Char} (isHost : IsHost host) (port : Option UInt16) :
    host ++ portText port ≠ [] := by
  cases isHost <;> simp

lemma Realm.display_toList (url : SafeUrl) : (Realm.from url).display.toList =
    url.scheme.toList ++ ':' :: '/' :: '/' ::
      ((url.host.getD "").toList ++ portText url.port) := by
  rw [Realm.display, Realm.from]
  cases url.port with
  | none => simp [portText]
  | some port => simp [portText, decimal]

/-- URLs with the same label have the same realm. -/
lemma Realm.display_injective {url url' : SafeUrl}
    (same : (Realm.from url).display = (Realm.from url').display) :
    Realm.from url = Realm.from url' := by
  have texts := congrArg String.toList same
  rw [display_toList, display_toList] at texts
  have pieces := congrArg (splitOnce ':') texts
  rw [splitOnce_append _ url.scheme_plain, splitOnce_append _ url'.scheme_plain] at pieces
  simp only [Option.some.injEq, Prod.mk.injEq, List.cons.injEq, true_and,
    String.toList_inj] at pieces
  rcases pieces with ⟨scheme, authority⟩
  have rest : url.host = url'.host /\ url.port = url'.port := by
    cases host : url.host with
    | none =>
      cases host' : url'.host with
      | none => exact ⟨rfl, (url.port_of_host host).trans (url'.port_of_host host').symm⟩
      | some name' =>
        rw [host, host', url.port_of_host host] at authority
        exact absurd authority.symm ((url'.host_isHost name' host').append_ne_nil _)
    | some name =>
      cases host' : url'.host with
      | none =>
        rw [host, host', url'.port_of_host host'] at authority
        exact absurd authority ((url.host_isHost name host).append_ne_nil _)
      | some name' =>
        rw [host, host'] at authority
        rcases (url.host_isHost name host).append_inj (url'.host_isHost name' host') authority
          with ⟨names, ports⟩
        exact ⟨congrArg some (String.toList_inj.mp names), ports⟩
  rw [Realm.from, Realm.from, scheme, rest.1, rest.2]

end Uv.Auth
