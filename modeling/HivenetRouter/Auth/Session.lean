import HivenetRouter.Framework.Go

/-!
# Sessions

`SessionManager` has the sessions of the authenticated agents by token. A session object is
shared: a handler that has validated a token keeps the pointer, and the object outlives its
entry in the map. Of its fields only `PeerID` is written after the creation, by `LinkPeerID`;
it is kept here apart from the map, by token, and the map has what never changes.

`SessionManager.Held` says of a session that a handler has seen that it is still there, or has
expired. Every operation keeps it, except the deletion of the token itself.
-/

namespace HivenetRouter.Auth

/-- `Session`, without its peer. Of the metadata the model is read. -/
structure Session where
  model : String
  expiresAt : ℕ
  deriving DecidableEq

def Session.isExpired (s : Session) (now : ℕ) : Bool := decide (s.expiresAt < now)

/-- `SessionManager`, and the field `PeerID` of all its sessions; a peer is absent while it is
zero. -/
structure SessionManager (Token Peer : Type) where
  sessions : GoMap Token Session
  peerIDs : GoMap Token Peer

namespace SessionManager

variable {Token Peer : Type} [DecidableEq Token] {m : SessionManager Token Peer} {now : ℕ}

/-- `NewSessionManager`. -/
def new : SessionManager Token Peer := ⟨∅, ∅⟩

/-- `CreateSession`, with the token that `generateSessionToken` returns. -/
def createSession (m : SessionManager Token Peer) (now ttl : ℕ) (token : Token) (model : String) :
    SessionManager Token Peer :=
  { m with sessions := m.sessions.insert token ⟨model, now + ttl⟩ }

/-- `ValidateSession`: the session, if it is valid. -/
def validateSession (m : SessionManager Token Peer) (now : ℕ) (token : Token) :
    Option Session × SessionManager Token Peer :=
  match m.sessions.lookup token with
  | none => (none, m)
  | some session =>
    if session.isExpired now then (none, { m with sessions := m.sessions.erase token })
    else (some session, m)

/-- `LinkPeerID`: the sessions after it, or `none` where it returns false. -/
def linkPeerID [DecidableEq Peer] (m : SessionManager Token Peer) (now : ℕ) (token : Token)
    (id : Peer) : Option (SessionManager Token Peer) :=
  match m.sessions.lookup token with
  | none => none
  | some session =>
    if session.isExpired now then none
    else
      match m.peerIDs.lookup token with
      | none => some { m with peerIDs := m.peerIDs.insert token id }
      | some bound => if bound = id then some m else none

def deleteSession (m : SessionManager Token Peer) (token : Token) : SessionManager Token Peer :=
  { m with sessions := m.sessions.erase token }

/-- An iteration of the loop of `CleanupExpired`. -/
def cleanupToken (now : ℕ) (m : SessionManager Token Peer) (token : Token) :
    SessionManager Token Peer :=
  match m.sessions.lookup token with
  | none => m
  | some session => if session.isExpired now then m.deleteSession token else m

/-- `CleanupExpired`, which visits the tokens in the given order. -/
def cleanupExpired (m : SessionManager Token Peer) (now : ℕ) (order : List Token) :
    SessionManager Token Peer :=
  order.foldl (cleanupToken now) m

/-! ### What the operations return -/

variable {token : Token} {session : Session}

theorem validateSession_eq_some (h : (m.validateSession now token).1 = some session) :
    m.sessions.lookup token = some session ∧ (m.validateSession now token).2 = m := by
  unfold validateSession at h ⊢
  cases hlookup : m.sessions.lookup token with
  | none =>
    rw [hlookup] at h
    cases h
  | some =>
    rw [hlookup] at h
    dsimp only at h ⊢
    split_ifs at h ⊢ with hexpired
    cases h
    exact ⟨rfl, rfl⟩

theorem validateSession_of_valid (hlookup : m.sessions.lookup token = some session)
    (hvalid : session.isExpired now = false) :
    m.validateSession now token = (some session, m) := by
  unfold validateSession
  rw [hlookup]
  dsimp only
  rw [hvalid]
  rfl

@[simp] theorem peerIDs_validateSession (m : SessionManager Token Peer) (now : ℕ) (token : Token) :
    (m.validateSession now token).2.peerIDs = m.peerIDs := by
  unfold validateSession
  split
  · rfl
  · split_ifs <;> rfl

@[simp] theorem peerIDs_cleanupExpired (m : SessionManager Token Peer) (now : ℕ)
    (order : List Token) : (m.cleanupExpired now order).peerIDs = m.peerIDs := by
  induction order generalizing m with
  | nil => rfl
  | cons token order ih =>
    refine (ih (cleanupToken now m token)).trans ?_
    unfold cleanupToken
    split
    · rfl
    · split_ifs <;> rfl

theorem linkPeerID_eq_some [DecidableEq Peer] {m' : SessionManager Token Peer} {id : Peer}
    (h : m.linkPeerID now token id = some m') :
    (∃ session, m.sessions.lookup token = some session) ∧ m'.sessions = m.sessions ∧
      (m.peerIDs.lookup token = none ∧ m'.peerIDs = m.peerIDs.insert token id ∨
        m.peerIDs.lookup token = some id ∧ m'.peerIDs = m.peerIDs) := by
  unfold linkPeerID at h
  cases hlookup : m.sessions.lookup token with
  | none =>
    rw [hlookup] at h
    cases h
  | some session =>
    rw [hlookup] at h
    dsimp only at h
    split at h
    · cases h
    refine ⟨⟨session, rfl⟩, ?_⟩
    -- linked for the first time, or again to the same peer
    cases hbound : m.peerIDs.lookup token with
    | none =>
      rw [hbound] at h
      cases h
      exact ⟨rfl, .inl ⟨rfl, rfl⟩⟩
    | some =>
      rw [hbound] at h
      dsimp only at h
      split_ifs at h with hid
      cases h
      exact ⟨rfl, .inr ⟨congrArg some hid, rfl⟩⟩

/-! ### A session that has been seen -/

/-- The session is still there, or it has expired. -/
def Held (m : SessionManager Token Peer) (now : ℕ) (token : Token) (session : Session) : Prop :=
  m.sessions.lookup token = some session ∨ session.expiresAt < now

namespace Held

theorem later (h : m.Held now token session) {now' : ℕ} (hle : now ≤ now') :
    m.Held now' token session :=
  h.imp_right fun hexpired => lt_of_lt_of_le hexpired hle

theorem createSession (h : m.Held now token session) {new : Token}
    (habsent : m.sessions.lookup new = none) (ttl : ℕ) (model : String) :
    (m.createSession now ttl new model).Held now token session := by
  refine h.imp_left fun hlookup => ?_
  have hne : token ≠ new := by
    rintro rfl
    rw [habsent] at hlookup
    cases hlookup
  exact (Finmap.lookup_insert_of_ne _ hne).trans hlookup

variable {other : Token}

variable (h : m.Held now token session)

include h

theorem deleteSession (hne : token ≠ other) : (m.deleteSession other).Held now token session :=
  h.imp_left fun hlookup => (Finmap.lookup_erase_ne hne).trans hlookup

theorem deleteExpired {found : Session}
    (hfound : m.sessions.lookup other = some found) (hexpired : found.isExpired now = true) :
    (m.deleteSession other).Held now token session := by
  by_cases hne : token = other
  · subst hne
    -- the session that is deleted is this one, and it has expired
    refine .inr (h.elim (fun hlookup => ?_) id)
    rw [hfound] at hlookup
    cases hlookup
    exact of_decide_eq_true hexpired
  · exact h.deleteSession hne

theorem validateSession (other : Token) :
    (m.validateSession now other).2.Held now token session := by
  unfold SessionManager.validateSession
  cases hfound : m.sessions.lookup other with
  | none => exact h
  | some =>
    dsimp only
    split_ifs with hexpired
    · exact h.deleteExpired hfound hexpired
    · exact h

theorem cleanupExpired (order : List Token) :
    (m.cleanupExpired now order).Held now token session := by
  induction order generalizing m with
  | nil => exact h
  | cons other order ih =>
    refine ih (m := cleanupToken now m other) ?_
    unfold cleanupToken
    cases hfound : m.sessions.lookup other with
    | none => exact h
    | some =>
      dsimp only
      split_ifs with hexpired
      · exact h.deleteExpired hfound hexpired
      · exact h

end Held

end SessionManager

end HivenetRouter.Auth
