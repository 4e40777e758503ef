import Shb.Lib.Bytes
import Mathlib.Data.List.Basic

/-!
# The plaintext queue of a TLS session

rustls takes only as much plaintext as it has room for, so `TlsSession` keeps what it would
not take and offers it again on every flush. There are two ways in: the queued one, through
the backlog, and the direct one, which offers the caller's own bytes and queues only what is
left of them. The second must never be taken while the first still holds something.

rustls and the allocator are a `Platform`. Their answers are free, but for the promise of
`Write::write` that no more is taken than was offered, and that a `write_tls` into a `Vec`
leaves less ciphertext waiting than there was. Nothing says how often rustls will make more of
it, so the two loops that wait for that are followed for a number of turns only, and a call
that has not come back by then is left where it stands, with what it still holds of its data.
-/

namespace Shb.Tls

/-- The errors a session reports, each by the context the source gives it. -/
inductive TlsError
  | plaintextWriteFailed
  deriving DecidableEq, Repr

/-- What a session stands on: rustls' connection `σ`, and how a `Vec` grows.

`out` is always a `Vec`, whose `io::Write` cannot fail, and `write_tls` reports no errors but
its writer's, so `writeTls` has none. -/
structure Platform (σ : Type) where
  /-- `conn.writer().write(data)`: how much of the offer was taken, or none for an error. -/
  write : σ → (data : Bytes) → Option {n : Nat // n ≤ data.length} × σ
  /-- The ciphertext waiting; `wants_write` asks whether there is any. -/
  queued : σ → Nat
  /-- `conn.write_tls(out)`: the ciphertext it appends. -/
  writeTls : σ → Bytes × σ
  writeTls_lt : ∀ c, 0 < queued c → queued (writeTls c).2 < queued c
  isHandshaking : σ → Bool
  /-- The capacity after growing from the first number to hold the second. -/
  grow : Nat → Nat → Nat

/-! ## The backlog -/

/-- `pending_plaintext` and `pending_pos`. A position past the start is inside the bytes: what
is wholly consumed is cleared at once. -/
structure Backlog where
  bytes : Bytes
  capacity : Nat
  pos : Nat
  within : pos = 0 ∨ pos < bytes.length

namespace Backlog

variable (b : Backlog)

/-- What rustls has not taken yet. -/
def rest : Bytes :=
  b.bytes.drop b.pos

/-- `Vec::new()`. -/
def empty : Backlog :=
  ⟨[], 0, 0, .inl rfl⟩

/-- `pending_plaintext.extend_from_slice(data)`. -/
def extend (grow : Nat → Nat → Nat) (b : Backlog) (data : Bytes) : Backlog where
  bytes := b.bytes ++ data
  capacity :=
    if b.bytes.length + data.length ≤ b.capacity then b.capacity
    else grow b.capacity (b.bytes.length + data.length)
  pos := b.pos
  within := by
    rcases b.within with h | h
    · exact .inl h
    · right
      rw [List.length_append]
      omega

/-- The `copy_within` and `truncate` of `write_plaintext`: the consumed bytes go, the others
move to the front. -/
def compact : Backlog :=
  ⟨b.rest, b.capacity, 0, .inl rfl⟩

/-- `pending_pos += n`, and the clearing when that was all of it. -/
def consume (n : Nat) (hn : n ≤ b.rest.length) : Backlog :=
  if h : b.pos + n = b.bytes.length then
    ⟨[], b.capacity, 0, .inl rfl⟩
  else
    { b with
      pos := b.pos + n
      within := by
        rw [rest, List.length_drop] at hn
        rcases b.within with hpos | hpos <;> omega }

@[simp] theorem rest_empty : empty.rest = [] := rfl

@[simp] theorem rest_compact : b.compact.rest = b.rest := rfl

/-- With nothing stored there is no position to speak of. -/
theorem rest_of_bytes_nil {b : Backlog} (h : b.bytes = []) : b.rest = [] := by
  rw [rest, h, List.drop_nil]

/-- The bytes come in behind what is waiting. -/
@[simp]
theorem rest_extend (grow : Nat → Nat → Nat) (b : Backlog) (data : Bytes) :
    (b.extend grow data).rest = b.rest ++ data := by
  have hpos : b.pos ≤ b.bytes.length := by
    rcases b.within with h | h
    · exact h ▸ Nat.zero_le _
    · exact Nat.le_of_lt h
  exact List.drop_append_of_le_length hpos

@[simp]
theorem rest_consume (n : Nat) (hn : n ≤ b.rest.length) :
    (b.consume n hn).rest = b.rest.drop n := by
  unfold consume
  split
  case isTrue h =>
    rw [rest, rest, List.drop_drop, h, List.drop_length, List.drop_nil]
  case isFalse h =>
    rw [rest, rest, List.drop_drop]

end Backlog

/-! ## The session -/

/-- `TlsSession`, with a record of the plaintext rustls has accepted. -/
structure TlsSession (σ : Type) where
  conn : σ
  pending : Backlog
  accepted : Bytes

namespace TlsSession

variable {σ : Type} (P : Platform σ)

/-- `TlsSession::new`. -/
def new (conn : σ) : TlsSession σ :=
  ⟨conn, .empty, []⟩

/-- The plaintext the session answers for: what rustls has, then what waits for it. -/
def queue (s : TlsSession σ) : Bytes :=
  s.accepted ++ s.pending.rest

/-- `extend_from_slice` on the backlog. -/
def keep (s : TlsSession σ) (data : Bytes) : TlsSession σ :=
  { s with pending := s.pending.extend P.grow data }

/-- `push_plaintext`: hand rustls as much of the backlog as it will take. -/
def pushPlaintext (s : TlsSession σ) : Except TlsError Unit × TlsSession σ :=
  if s.pending.bytes = [] then (.ok (), s)
  else
    match P.write s.conn s.pending.rest with
    | (none, conn) => (.error .plaintextWriteFailed, { s with conn })
    | (some n, conn) =>
      if n.1 = 0 then (.ok (), { s with conn })
      else
        pushPlaintext
          { conn
            pending := s.pending.consume n.1 n.2
            accepted := s.accepted ++ s.pending.rest.take n.1 }
termination_by s.pending.rest.length
decreasing_by
  have := n.2
  rw [Backlog.rest_consume, List.length_drop]
  omega

/-- `write_plaintext`. The backlog is moved to the front only when the bytes would not fit and
at least half of it has been consumed. -/
def writePlaintext (s : TlsSession σ) (data : Bytes) : Except TlsError Unit × TlsSession σ :=
  let remaining := s.pending.bytes.length - s.pending.pos
  let s :=
    if s.pending.capacity - s.pending.bytes.length < data.length ∧ remaining ≤ s.pending.pos then
      { s with pending := s.pending.compact }
    else s
  pushPlaintext P (s.keep P data)

/-- `while wants_write { write_tls }`. -/
def drain (out : Bytes) (s : TlsSession σ) : Bytes × TlsSession σ :=
  if 0 < P.queued s.conn then
    drain (out ++ (P.writeTls s.conn).1) { s with conn := (P.writeTls s.conn).2 }
  else (out, s)
termination_by P.queued s.conn
decreasing_by exact P.writeTls_lt s.conn ‹_›

/-- How far a call has come: its result, or none while it is still in its loop; what of its
data it has neither handed over nor kept; the buffer of the caller; and the session. -/
structure Progress (σ : Type) where
  result : Option (Except TlsError Unit)
  held : Bytes
  out : Bytes
  session : TlsSession σ

/-- The loop of `take_ciphertext_into`. -/
def takeLoop : (turns : Nat) → Bytes → TlsSession σ → Progress σ
  | 0, out, s => ⟨none, [], out, s⟩
  | turns + 1, out, s =>
    match pushPlaintext P s with
    | (.error e, s) => ⟨some (.error e), [], out, s⟩
    | (.ok _, s) =>
      let (out', s) := drain P out s
      if s.pending.bytes = [] ∨ out'.length = out.length then ⟨some (.ok ()), [], out', s⟩
      else takeLoop turns out' s

/-- `take_ciphertext_into`: `out` is cleared first, so what the caller left in it is not read. -/
def takeCiphertextInto (turns : Nat) (s : TlsSession σ) : Progress σ :=
  takeLoop P turns [] s

/-- `while !data.is_empty() { write }`: what is left of the data, and whether the last offer
failed. -/
def offerAll (data : Bytes) (s : TlsSession σ) : Except TlsError Unit × Bytes × TlsSession σ :=
  if data = [] then (.ok (), data, s)
  else
    match P.write s.conn data with
    | (none, conn) => (.error .plaintextWriteFailed, data, { s with conn })
    | (some n, conn) =>
      if n.1 = 0 then (.ok (), data, { s with conn })
      else offerAll (data.drop n.1) { s with conn, accepted := s.accepted ++ data.take n.1 }
termination_by data.length
decreasing_by
  have := n.2
  rw [List.length_drop]
  omega

/-- The loop of the direct path: offers and drains by turns, until the data is gone, an offer
fails, or a round makes no ciphertext. -/
def directLoop : (turns : Nat) → (data out : Bytes) → TlsSession σ → Progress σ
  | 0, data, out, s => ⟨none, data, out, s⟩
  | turns + 1, data, out, s =>
    match offerAll P data s with
    | (.error e, data, s) => ⟨some (.error e), [], out, s.keep P data⟩
    | (.ok _, data, s) =>
      let (out', s) := drain P out s
      if data = [] then ⟨some (.ok ()), [], out', s⟩
      else if out'.length = out.length then ⟨some (.ok ()), [], out', s.keep P data⟩
      else directLoop turns data out' s

/-- `write_plaintext_and_take_ciphertext`. -/
def writePlaintextAndTakeCiphertext (turns : Nat) (data out : Bytes) (s : TlsSession σ) :
    Progress σ :=
  if P.isHandshaking s.conn || !s.pending.bytes.isEmpty then
    match writePlaintext P s data with
    | (.error e, s) => ⟨some (.error e), [], out, s⟩
    | (.ok _, s) => takeCiphertextInto P turns s
  else directLoop P turns data [] s

/-! ## What each of them does to the queue -/

@[simp]
theorem queue_keep (s : TlsSession σ) (data : Bytes) : (s.keep P data).queue = s.queue ++ data := by
  simp [queue, keep]

/-- What rustls takes of the backlog moves from one side of the queue to the other. -/
theorem queue_pushPlaintext (s : TlsSession σ) : (pushPlaintext P s).2.queue = s.queue := by
  fun_induction pushPlaintext P s with
  | case1 s hempty => rfl
  | case2 s hmore conn hwrite => rfl
  | case3 s hmore n conn hwrite hzero => rfl
  | case4 s hmore n conn hwrite hzero ih =>
    rw [ih]
    simp [queue, List.append_assoc]

theorem queue_writePlaintext (s : TlsSession σ) (data : Bytes) :
    (writePlaintext P s data).2.queue = s.queue ++ data := by
  unfold writePlaintext
  rw [queue_pushPlaintext, queue_keep]
  split
  · rfl
  · rfl

/-- Draining is between rustls and the socket. -/
theorem drain_same (out : Bytes) (s : TlsSession σ) :
    (drain P out s).2.accepted = s.accepted ∧ (drain P out s).2.pending = s.pending := by
  fun_induction drain P out s with
  | case1 out s hmore ih => exact ih
  | case2 out s hdone => exact ⟨rfl, rfl⟩

theorem queue_takeLoop (turns : Nat) (out : Bytes) (s : TlsSession σ) :
    (takeLoop P turns out s).session.queue = s.queue ∧ (takeLoop P turns out s).held = [] := by
  fun_induction takeLoop P turns out s with
  | case1 out s => exact ⟨rfl, rfl⟩
  | case2 turns out s e s₁ hpush =>
    have hqueue := queue_pushPlaintext P s
    rw [hpush] at hqueue
    exact ⟨hqueue, rfl⟩
  | case3 turns out s u s₁ hpush out' s₂ hdrain hstop =>
    have hqueue := queue_pushPlaintext P s
    obtain ⟨haccepted, hpending⟩ := drain_same P out s₁
    rw [hpush] at hqueue
    rw [hdrain] at haccepted hpending
    refine ⟨?_, rfl⟩
    rw [← hqueue, queue, haccepted, hpending, queue]
  | case4 turns out s u s₁ hpush out' s₂ hdrain hmore ih =>
    have hqueue := queue_pushPlaintext P s
    obtain ⟨haccepted, hpending⟩ := drain_same P out s₁
    rw [hpush] at hqueue
    rw [hdrain] at haccepted hpending
    refine ⟨?_, ih.2⟩
    rw [ih.1, ← hqueue, queue, haccepted, hpending, queue]

/-- On the direct path rustls gets a prefix of the data, which goes in behind all it has. The
backlog is not touched. -/
theorem offerAll_splits (data : Bytes) (s : TlsSession σ) :
    (offerAll P data s).2.2.accepted ++ (offerAll P data s).2.1 = s.accepted ++ data ∧
      (offerAll P data s).2.2.pending = s.pending := by
  fun_induction offerAll P data s with
  | case1 s => exact ⟨rfl, rfl⟩
  | case2 data s hmore conn hwrite => exact ⟨rfl, rfl⟩
  | case3 data s hmore n conn hwrite hzero => exact ⟨rfl, rfl⟩
  | case4 data s hmore n conn hwrite hzero ih =>
    refine ⟨?_, ih.2⟩
    rw [ih.1, List.append_assoc, List.take_append_drop]

/-- A round of the direct path, whose drain changes neither side of the queue. -/
theorem round_splits {data data₁ out : Bytes} {s s₁ : TlsSession σ}
    {r : Except TlsError Unit} (hoffer : offerAll P data s = (r, data₁, s₁)) :
    (drain P out s₁).2.accepted ++ data₁ = s.accepted ++ data ∧
      (drain P out s₁).2.pending = s.pending := by
  obtain ⟨hsplit, hpending⟩ := offerAll_splits P data s
  obtain ⟨haccepted, hsame⟩ := drain_same P out s₁
  rw [hoffer] at hsplit hpending
  exact ⟨haccepted ▸ hsplit, hsame.trans hpending⟩

/-- The direct path, with nothing in the backlog when it is taken. Wherever it stands, what
rustls has, what was kept and what is still held are what there was to send. -/
theorem queue_directLoop (turns : Nat) (data out : Bytes) (s : TlsSession σ)
    (hempty : s.pending.rest = []) :
    (directLoop P turns data out s).session.queue ++ (directLoop P turns data out s).held =
        s.accepted ++ data ∧
      ((directLoop P turns data out s).result ≠ none →
        (directLoop P turns data out s).held = []) := by
  fun_induction directLoop P turns data out s with
  | case1 data out s =>
    refine ⟨?_, fun h => absurd rfl h⟩
    rw [queue, hempty, List.append_nil]
  | case2 turns data out s e data₁ s₁ hoffer =>
    obtain ⟨hsplit, hpending⟩ := offerAll_splits P data s
    rw [hoffer] at hsplit hpending
    refine ⟨?_, fun _ => rfl⟩
    rw [List.append_nil, queue_keep, queue, hpending, hempty, List.append_nil, hsplit]
  | case3 turns data out s u s₁ out' s₂ hdrain hoffer =>
    obtain ⟨hsplit, hpending⟩ := round_splits P hoffer
    rw [hdrain] at hsplit hpending
    refine ⟨?_, fun _ => rfl⟩
    rw [List.append_nil, queue, hpending, hempty, hsplit]
  | case4 turns data out s u data₁ s₁ hoffer out' s₂ hdrain hmore hstuck =>
    obtain ⟨hsplit, hpending⟩ := round_splits P hoffer
    rw [hdrain] at hsplit hpending
    refine ⟨?_, fun _ => rfl⟩
    rw [List.append_nil, queue_keep, queue, hpending, hempty, List.append_nil, hsplit]
  | case5 turns data out s u data₁ s₁ hoffer out' s₂ hdrain hmore hstuck ih =>
    obtain ⟨hsplit, hpending⟩ := round_splits P hoffer
    rw [hdrain] at hsplit hpending
    obtain ⟨hqueue, hheld⟩ := ih (hpending ▸ hempty)
    exact ⟨hqueue.trans hsplit, hheld⟩

/-! ## Runs -/

/-- What is done with a session before it is closed: the three ways to use it, each followed
for so many turns of its loop, and whatever else changes rustls' connection, such as the
peer's bytes that finish the handshake. -/
inductive Call (σ : Type)
  | writePlaintext (data : Bytes)
  | writePlaintextAndTakeCiphertext (turns : Nat) (data out : Bytes)
  | takeCiphertextInto (turns : Nat)
  | process (f : σ → σ)

/-- The plaintext a call passes in. -/
def Call.data : Call σ → Bytes
  | .writePlaintext data => data
  | .writePlaintextAndTakeCiphertext _ data _ => data
  | .takeCiphertextInto _ => []
  | .process _ => []

def call (s : TlsSession σ) : Call σ → Progress σ
  | .writePlaintext data =>
    let (result, s) := writePlaintext P s data
    ⟨some result, [], [], s⟩
  | .writePlaintextAndTakeCiphertext turns data out =>
    writePlaintextAndTakeCiphertext P turns data out s
  | .takeCiphertextInto turns => takeCiphertextInto P turns s
  | .process f => ⟨some (.ok ()), [], [], { s with conn := f s.conn }⟩

/-- Calls one after the other, failed ones included, as long as they come back. -/
def run (s : TlsSession σ) : List (Call σ) → Progress σ
  | [] => ⟨some (.ok ()), [], [], s⟩
  | c :: calls =>
    let progress := s.call P c
    if progress.result = none then progress else progress.session.run calls

/-- The step: a call adds its data behind the queue, and one that has come back holds none
of it. -/
theorem queue_call (s : TlsSession σ) (c : Call σ) :
    (s.call P c).session.queue ++ (s.call P c).held = s.queue ++ c.data ∧
      ((s.call P c).result ≠ none → (s.call P c).held = []) := by
  cases c with
  | writePlaintext data =>
    refine ⟨?_, fun _ => rfl⟩
    exact (List.append_nil _).trans (queue_writePlaintext P s data)
  | takeCiphertextInto turns =>
    obtain ⟨hqueue, hheld⟩ := queue_takeLoop P turns [] s
    refine ⟨?_, fun _ => hheld⟩
    exact congrArg₂ (· ++ ·) hqueue hheld
  | process f => exact ⟨rfl, fun _ => rfl⟩
  | writePlaintextAndTakeCiphertext turns data out =>
    simp only [call, Call.data, writePlaintextAndTakeCiphertext]
    split
    case isTrue hqueued =>
      have hwrite := queue_writePlaintext P s data
      split
      case h_1 e s₁ herror =>
        rw [herror] at hwrite
        exact ⟨(List.append_nil _).trans hwrite, fun _ => rfl⟩
      case h_2 u s₁ hok =>
        rw [hok] at hwrite
        obtain ⟨hqueue, hheld⟩ := queue_takeLoop P turns [] s₁
        refine ⟨?_, fun _ => hheld⟩
        rw [takeCiphertextInto, hheld, List.append_nil, hqueue, hwrite]
    case isFalse hdirect =>
      -- the backlog is empty here, which is what lets the data overtake it
      have hbytes : s.pending.bytes = [] := by
        rw [Bool.or_eq_true, Bool.not_eq_true', not_or] at hdirect
        exact List.isEmpty_iff.mp (Bool.not_eq_false _ ▸ hdirect.2)
      have hempty := Backlog.rest_of_bytes_nil hbytes
      obtain ⟨hqueue, hheld⟩ := queue_directLoop P turns data [] s hempty
      refine ⟨?_, hheld⟩
      rw [hqueue, queue, hempty, List.append_nil]

/-- The run from any session: some of the calls were made, all of them if the last one came
back, and what they passed in stands behind what the session answered for before. -/
theorem queue_run (s : TlsSession σ) (calls : List (Call σ)) :
    ∃ made, made <+: calls ∧
      (s.run P calls).session.queue ++ (s.run P calls).held = s.queue ++ made.flatMap Call.data ∧
      ((s.run P calls).result ≠ none → made = calls ∧ (s.run P calls).held = []) := by
  induction calls generalizing s with
  | nil => exact ⟨[], List.prefix_refl _, rfl, fun _ => ⟨rfl, rfl⟩⟩
  | cons c calls ih =>
    obtain ⟨hqueue, hheld⟩ := queue_call P s c
    rw [run]
    split
    case isTrue hgoing =>
      refine ⟨[c], List.prefix_append [c] calls, ?_, fun h => absurd hgoing h⟩
      rw [hqueue, List.flatMap_singleton]
    case isFalse hback =>
      obtain ⟨made, hprefix, hrun, hall⟩ := ih (s.call P c).session
      rw [hheld hback, List.append_nil] at hqueue
      refine ⟨c :: made, List.cons_prefix_cons.mpr ⟨rfl, hprefix⟩, ?_, ?_⟩
      · rw [hrun, hqueue, List.flatMap_cons, List.append_assoc]
      · intro h
        exact ⟨congrArg _ (hall h).1, (hall h).2⟩

/-- Whatever rustls and the allocator answer, and wherever the session stands: what rustls has
accepted, followed by what waits in the backlog and by what a call under way still holds, is
what the calls made so far have passed in, in order. When the calls have come back, well or
with an error, none of it is held anywhere but in the backlog. -/
theorem plaintext_lossless (conn : σ) (calls : List (Call σ)) :
    ∃ made, made <+: calls ∧
      ((new conn).run P calls).session.accepted ++ ((new conn).run P calls).session.pending.rest ++
          ((new conn).run P calls).held = made.flatMap Call.data ∧
      (((new conn).run P calls).result ≠ none →
        made = calls ∧ ((new conn).run P calls).held = []) :=
  queue_run P (new conn) calls

/-! ## A session that uses both paths -/

/-- A stand-in for rustls, with room for so much plaintext and no more. -/
structure Loopback where
  handshaking : Bool
  room : Nat
  sealed : Bytes

/-- What there is room for is taken, and that may be nothing. Once the handshake has ended it is
sealed as it comes, and leaves four bytes at a time. -/
def loopback : Platform Loopback where
  write c data :=
    (some ⟨min c.room data.length, Nat.min_le_right _ _⟩,
      { c with
        room := c.room - data.length
        sealed := if c.handshaking then c.sealed else c.sealed ++ data.take c.room })
  queued c := c.sealed.length
  writeTls c := (c.sealed.take 4, { c with sealed := c.sealed.drop 4 })
  writeTls_lt c h := by
    rw [List.length_drop]
    omega
  isHandshaking c := c.handshaking
  grow capacity needed := max (2 * capacity) needed

/-- Of three bytes written during the handshake two are taken; the handshake ends, which makes
room for four, and the third follows. Of the next six, which go in directly, three are taken and
the offer of the others finds no room, so they are kept, and the last byte is queued behind
them. -/
def bothPaths : List (Call Loopback) :=
  [ .writePlaintext [1, 2, 3],
    .process fun _ => ⟨false, 4, [1, 2]⟩,
    .takeCiphertextInto 3,
    .writePlaintextAndTakeCiphertext 3 [4, 5, 6, 7, 8, 9] [],
    .writePlaintext [10] ]

theorem plaintext_lossless_both_paths :
    let progress := (new ⟨true, 2, []⟩).run loopback bothPaths
    progress.session.accepted = [1, 2, 3, 4, 5, 6] ∧ progress.session.pending.bytes ≠ [] ∧
      progress.held = [] ∧
      progress.session.accepted ++ progress.session.pending.rest = bothPaths.flatMap Call.data := by
  have hresult : ((new ⟨true, 2, []⟩).run loopback bothPaths).result = some (.ok ()) := by
    decide +kernel
  obtain ⟨made, -, hqueue, hback⟩ := plaintext_lossless loopback ⟨true, 2, []⟩ bothPaths
  obtain ⟨rfl, hheld⟩ := hback (by rw [hresult]; simp)
  rw [hheld, List.append_nil] at hqueue
  exact ⟨by decide +kernel, by decide +kernel, hheld, hqueue⟩

end TlsSession
end Shb.Tls
