import AgenticPlatform.Basics
import AgenticPlatform.Runs
import Mathlib.Logic.Function.Basic

/-!
# The distributed lock

Any number of `RedisDistributedLock` objects of one name, and any number of calls of each.
A call runs up to its request, the server answers it in one step, and the call goes on
with the answer; everything else may happen in between, the end of the key's time to live
and of the call itself included. Tokens are numbered as `acquire` draws them.
-/

namespace AgenticPlatform

namespace RedisLock

/-- The value at the lock's key, and when it expires. -/
structure Entry where
  token : Nat
  expiresAt : Nat
deriving DecidableEq

/-! ### The server -/

/-- `SET key token NX PX px`. -/
def setScript (stored : Option Entry) (now token px : Nat) : Option Entry × Bool :=
  match stored with
  | none => (some ⟨token, now + px⟩, true)
  | some entry => (some entry, false)

/-- `LOCK_RELEASE`. -/
def lockRelease (stored : Option Entry) (token : Nat) : Option Entry × Bool :=
  if stored.map Entry.token = some token then (none, true) else (stored, false)

/-- `LOCK_EXTEND`. -/
def lockExtend (stored : Option Entry) (now token ttl : Nat) : Option Entry × Bool :=
  if stored.map Entry.token = some token then (some ⟨token, now + ttl⟩, true) else (stored, false)

/-- A request, with its argument in milliseconds. -/
inductive Request where
  | set (px : Nat)
  | release
  | extend (ttl : Nat)
deriving DecidableEq

def Request.serve (request : Request) (stored : Option Entry) (now token : Nat) :
    Option Entry × Bool :=
  match request with
  | .set px => setScript stored now token px
  | .release => lockRelease stored token
  | .extend ttl => lockExtend stored now token ttl

/-! ### The callers -/

/-- `_milliseconds`. -/
def milliseconds (delta : Duration) : Nat := (max (wholeMillis delta) 1).toNat

/-- `ttl or self._ttl`, with the `_ttl` that each object is constructed with. -/
def extension (ttls : Nat → Duration) (o : Nat) : Option Duration → Duration
  | some delta => if delta = 0 then ttls o else delta
  | none => ttls o

/-- A call of object `o`: before the server has its request, before the object has the
    answer, and after its return. `seen` records the stored token when the server answered.
    A declined call has returned `False` without a request. -/
inductive Call where
  | idle
  | sent (o : Nat) (request : Request) (token : Nat)
  | answered (o : Nat) (request : Request) (token : Nat) (seen : Option Nat) (reply : Bool)
  | returned (o : Nat) (request : Request) (token : Nat) (seen : Option Nat) (value : Bool)
  | declined

def Call.over : Call → Bool
  | .idle | .returned .. | .declined => true
  | .sent .. | .answered .. => false

/-- The server's clock and key, `_token` of every object, which object drew each token,
    and the calls. -/
structure State where
  now : Nat := 0
  stored : Option Entry := none
  tokens : Nat → Option Nat := fun _ => none
  drawn : List Nat := []
  calls : Nat → Call := fun _ => .idle

def State.call (s : State) (c : Nat) (call : Call) : State :=
  { s with calls := Function.update s.calls c call }

def State.hold (s : State) (o : Nat) (token : Option Nat) : State :=
  { s with tokens := Function.update s.tokens o token }

inductive Move where
  | acquire (c o : Nat)
  | release (c o : Nat)
  | extend (c o : Nat) (ttl : Option Duration)
  | serve (c : Nat)
  | finish (c : Nat)
  | retry (c : Nat)
  | abort (c : Nat)
  | tick (milliseconds : Nat)
  | expire

/-- The object's part after the answer: what it does to `_token`. -/
def settle (s : State) (o token : Nat) (reply : Bool) : Request → State
  | .set _ => if reply then s.hold o (some token) else s
  | .release => s.hold o none
  | .extend _ => if reply then s else s.hold o none

/-- One step of a call or of the server. `retry` is the next round of `acquire` while its
    deadline has not passed, `abort` an exception or a cancellation, and `expire` any other
    loss of the key. -/
def step (ttls : Nat → Duration) (s : State) : Move → State
  | .acquire c o =>
      if (s.calls c).over then
        { s.call c (.sent o (.set (milliseconds (ttls o))) s.drawn.length) with
          drawn := s.drawn ++ [o] }
      else s
  | .release c o =>
      if (s.calls c).over then
        match s.tokens o with
        | none => s.call c .declined
        | some token => s.call c (.sent o .release token)
      else s
  | .extend c o ttl =>
      if (s.calls c).over then
        match s.tokens o with
        | none => s.call c .declined
        | some token => s.call c (.sent o (.extend (milliseconds (extension ttls o ttl))) token)
      else s
  | .serve c =>
      match s.calls c with
      | .sent o request token =>
          let answer := request.serve s.stored s.now token
          { s.call c (.answered o request token (s.stored.map Entry.token) answer.2) with
            stored := answer.1 }
      | _ => s
  | .finish c =>
      match s.calls c with
      | .answered o request token seen reply =>
          (settle s o token reply request).call c (.returned o request token seen reply)
      | _ => s
  | .retry c =>
      match s.calls c with
      | .answered o (.set px) token _ false => s.call c (.sent o (.set px) token)
      | _ => s
  | .abort c => s.call c .idle
  | .tick milliseconds =>
      { s with
        now := s.now + milliseconds
        stored := s.stored.filter fun entry => s.now + milliseconds < entry.expiresAt }
  | .expire => { s with stored := none }

variable {ttls : Nat → Duration} {s : State} {stored : Option Entry} {request : Request} {drawn : List Nat}
  {c o o' now token : Nat} {call : Call}

/-! ### What a request can do -/

/-- The requests that name the token they expect. -/
def Request.checks : Request → Bool
  | .set _ => false
  | .release | .extend _ => true

/-- Release and extend are answered with success where the token is the stored one. -/
theorem Request.stored_of_serve (hchecks : request.checks = true)
    (h : (request.serve stored now token).2 = true) : stored.map Entry.token = some token := by
  cases request with
  | set px => cases hchecks
  | release =>
    simp only [Request.serve, lockRelease] at h
    split at h
    · assumption
    · cases h
  | extend ttl =>
    simp only [Request.serve, lockExtend] at h
    split at h
    · assumption
    · cases h

/-- A request with another token leaves the entry as it is. -/
theorem Request.serve_other {entry : Entry} (request : Request) (h : entry.token ≠ token) :
    (request.serve (some entry) now token).1 = some entry := by
  have hmap : ¬ (some entry).map Entry.token = some token := by
    intro hsame
    exact h (Option.some.inj hsame)
  cases request with
  | set px => rfl
  | release => rw [Request.serve, lockRelease, if_neg hmap]
  | extend ttl => rw [Request.serve, lockExtend, if_neg hmap]

/-! ### Whose token it is -/

/-- The object that drew a token is the one that uses it, and a request that checks the
    token succeeded where that token was stored. -/
def Call.Owned (drawn : List Nat) : Call → Prop
  | .sent o _ token => drawn[token]? = some o
  | .answered o request token seen reply | .returned o request token seen reply =>
      drawn[token]? = some o ∧ (request.checks = true → reply = true → seen = some token)
  | .idle | .declined => True

/-- Every token in use is its drawer's. -/
structure Owned (s : State) : Prop where
  tokens : ∀ o token, s.tokens o = some token → s.drawn[token]? = some o
  calls : ∀ c, (s.calls c).Owned s.drawn

theorem Owned.init : Owned {} where
  tokens o token h := by cases h
  calls c := trivial

theorem drawn_append (h : drawn[token]? = some o) : (drawn ++ [o'])[token]? = some o := by
  have hlt : token < drawn.length := (List.getElem?_eq_some_iff.mp h).1
  rw [List.getElem?_append_left hlt, h]

theorem Call.Owned.append (h : call.Owned drawn) : call.Owned (drawn ++ [o']) := by
  cases call with
  | idle | declined => exact trivial
  | sent => exact drawn_append h
  | answered | returned => exact ⟨drawn_append h.1, h.2⟩

/-- A call that moves on with a token of its own. -/
theorem Owned.set (h : Owned s) (c : Nat) (hcall : call.Owned s.drawn) : Owned (s.call c call) where
  tokens := h.tokens
  calls c' := by
    by_cases hc : c' = c
    · subst hc
      simpa [State.call] using hcall
    · simpa [State.call, hc] using h.calls c'

theorem Owned.hold (h : Owned s) (o : Nat) {held : Option Nat}
    (hheld : ∀ token, held = some token → s.drawn[token]? = some o) : Owned (s.hold o held) where
  tokens o' token htoken := by
    by_cases ho : o' = o
    · subst ho
      exact hheld token (by simpa [State.hold] using htoken)
    · exact h.tokens o' token (by simpa [State.hold, ho] using htoken)
  calls := h.calls

/-- Nothing is said of the server's key. -/
theorem Owned.server (h : Owned s) (now : Nat) (stored : Option Entry) :
    Owned { s with now := now, stored := stored } where
  tokens := h.tokens
  calls := h.calls

theorem Owned.draw (h : Owned s) (o : Nat) : Owned { s with drawn := s.drawn ++ [o] } where
  tokens o' token htoken := drawn_append (h.tokens o' token htoken)
  calls c := (h.calls c).append

theorem Owned.settle (h : Owned s) (reply : Bool) (hdrawn : s.drawn[token]? = some o) :
    Owned (settle s o token reply request) := by
  have hnone : Owned (s.hold o none) := h.hold o fun _ hcontra => by cases hcontra
  cases request with
  | set px =>
    simp only [RedisLock.settle]
    split
    · exact h.hold o fun token' htoken => by cases htoken; exact hdrawn
    · exact h
  | release => exact hnone
  | extend ttl =>
    simp only [RedisLock.settle]
    split
    · exact h
    · exact hnone

@[simp] theorem settle_drawn (s : State) (o token : Nat) (reply : Bool) (request : Request) :
    (settle s o token reply request).drawn = s.drawn := by
  cases request <;> cases reply <;> rfl

theorem Owned.step (h : Owned s) (move : Move) : Owned (step ttls s move) := by
  cases move with
  | acquire c o =>
    simp only [RedisLock.step]
    split
    · refine (h.draw o).set c ?_
      show (s.drawn ++ [o])[s.drawn.length]? = some o
      simp
    · exact h
  | release c o =>
    simp only [RedisLock.step]
    split
    · split
      · exact h.set c trivial
      · rename_i token htoken
        exact h.set c (h.tokens o token htoken)
    · exact h
  | extend c o ttl =>
    simp only [RedisLock.step]
    split
    · split
      · exact h.set c trivial
      · rename_i token htoken
        exact h.set c (h.tokens o token htoken)
    · exact h
  | serve c =>
    simp only [RedisLock.step]
    split
    · rename_i o request token hcall
      have howned := h.calls c
      rw [hcall] at howned
      refine Owned.server (h.set c ?_) s.now _
      exact ⟨howned, Request.stored_of_serve⟩
    · exact h
  | finish c =>
    simp only [RedisLock.step]
    split
    · rename_i o request token seen reply hcall
      have howned := h.calls c
      rw [hcall] at howned
      refine (h.settle reply howned.1).set c ?_
      rw [settle_drawn]
      exact howned
    · exact h
  | retry c =>
    simp only [RedisLock.step]
    split
    · rename_i o px token seen hcall
      have howned := h.calls c
      rw [hcall] at howned
      exact h.set c howned.1
    · exact h
  | abort c => exact h.set c trivial
  | tick milliseconds => exact h.server _ _
  | expire => exact h.server s.now none

theorem owned_after (ttls : Nat → Duration) (moves : List Move) :
    Owned (Runs.after (step ttls) {} moves) :=
  Runs.after_invariant Owned.init fun _ move h => h.step move

/-- What happens to an entry besides the end of its time: a release or an extension that
    names its token. -/
theorem stored_step {entry : Entry} {move : Move} (hstored : s.stored = some entry)
    (hchanged : (step ttls s move).stored ≠ some entry) :
    (∃ milliseconds, move = .tick milliseconds) ∨ move = .expire ∨
      ∃ c o request, move = .serve c ∧ s.calls c = .sent o request entry.token ∧
        request.checks = true := by
  cases move with
  | acquire c o =>
    refine absurd ?_ hchanged
    simp only [step]
    split <;> exact hstored
  | release c o | extend c o ttl =>
    refine absurd ?_ hchanged
    simp only [step]
    split
    · split <;> exact hstored
    · exact hstored
  | serve c =>
    simp only [step] at hchanged
    split at hchanged
    · rename_i o request token hcall
      rw [hstored] at hchanged
      by_cases hsame : entry.token = token
      · subst hsame
        cases request with
        | set px => exact absurd rfl hchanged
        | release => exact .inr (.inr ⟨c, o, _, rfl, hcall, rfl⟩)
        | extend ttl => exact .inr (.inr ⟨c, o, _, rfl, hcall, rfl⟩)
      · exact absurd (request.serve_other hsame) hchanged
    · exact absurd hstored hchanged
  | finish c =>
    refine absurd ?_ hchanged
    simp only [step]
    split
    · rename_i o request token seen reply hcall
      cases request <;> cases reply <;> exact hstored
    · exact hstored
  | retry c =>
    refine absurd ?_ hchanged
    simp only [step]
    split <;> exact hstored
  | abort c => exact absurd hstored hchanged
  | tick milliseconds => exact .inl ⟨milliseconds, rfl⟩
  | expire => exact .inr (.inl rfl)

/-- However calls, expiries and aborts are interleaved: the stored token is in the hands of
    one object at most, a release or extension that returned `True` was answered while its
    token was the stored one, and an entry is deleted or prolonged before its time by
    nobody but the object that drew its token. -/
theorem owner_checked (ttls : Nat → Duration) (moves : List Move) :
    let s := Runs.after (step ttls) {} moves
    (∀ entry o o', s.stored = some entry → s.tokens o = some entry.token →
      s.tokens o' = some entry.token → o = o') ∧
    (∀ c o request token seen, s.calls c = .returned o request token seen true →
      request.checks = true → seen = some token ∧ s.drawn[token]? = some o) ∧
    (∀ move entry, s.stored = some entry → (step ttls s move).stored ≠ some entry →
      (∃ milliseconds, move = .tick milliseconds) ∨ move = .expire ∨
        ∃ c o request, move = .serve c ∧ s.calls c = .sent o request entry.token ∧
          request.checks = true ∧ s.drawn[entry.token]? = some o) := by
  intro s
  have h : Owned s := owned_after ttls moves
  refine ⟨?_, ?_, ?_⟩
  · intro entry o o' _ ho ho'
    have hdrawn := h.tokens o entry.token ho
    rw [h.tokens o' entry.token ho', Option.some.injEq] at hdrawn
    exact hdrawn.symm
  · intro c o request token seen hcall hchecks
    have howned := h.calls c
    rw [hcall] at howned
    exact ⟨howned.2 hchecks rfl, howned.1⟩
  · intro move entry hstored hchanged
    rcases stored_step hstored hchanged with htick | hexpire | ⟨c, o, request, hserve, hcall, hchecks⟩
    · exact .inl htick
    · exact .inr (.inl hexpire)
    · have howned := h.calls c
      rw [hcall] at howned
      exact .inr (.inr ⟨c, o, request, hserve, hcall, hchecks, howned⟩)

end RedisLock

end AgenticPlatform
