import Mathlib.Data.List.Basic

/-!
# Bounded mailboxes

A queue between several senders and one receiver, with room for so many items. A
sender may take a place before it has the item for it. The receiver is told that
nothing more will come once it has every item and every sender is gone.
-/

/-- The items on their way, the places taken and not filled yet, and the senders that
are still there. What the receiver took is kept. -/
structure Mailbox (ι α : Type) (capacity : ℕ) where
  received : List α
  queue : List α
  reserved : ℕ
  senders : List ι
  room : queue.length + reserved ≤ capacity
deriving DecidableEq

namespace Mailbox

variable {ι α : Type} {capacity : ℕ}

def start (senders : List ι) : Mailbox ι α capacity where
  received := []
  queue := []
  reserved := 0
  senders
  room := Nat.zero_le capacity

/-- Takes a place. -/
def reserve (m : Mailbox ι α capacity) : Option (Mailbox ι α capacity) :=
  if h : m.queue.length + m.reserved < capacity then
    some { m with reserved := m.reserved + 1, room := h }
  else none

/-- Puts an item into a place that was taken. -/
def fill (m : Mailbox ι α capacity) (a : α) : Option (Mailbox ι α capacity) :=
  if h : 0 < m.reserved then
    some { m with
      queue := m.queue ++ [a]
      reserved := m.reserved - 1
      room := by
        have hroom := m.room
        rw [List.length_append, List.length_singleton]
        omega }
  else none

/-- Gives a place back. -/
def release (m : Mailbox ι α capacity) : Mailbox ι α capacity :=
  { m with
    reserved := m.reserved - 1
    room := by
      have hroom := m.room
      omega }

/-- Takes a place and fills it. -/
def send (m : Mailbox ι α capacity) (a : α) : Option (Mailbox ι α capacity) :=
  m.reserve.bind fun m' => m'.fill a

/-- A sender goes. -/
def leave [DecidableEq ι] (m : Mailbox ι α capacity) (i : ι) : Mailbox ι α capacity :=
  { m with senders := m.senders.filter fun j => j ≠ i }

/-- What the receiver gets: an item, or word of the end; nothing while it has to wait. -/
def recv (m : Mailbox ι α capacity) : Option (Option α × Mailbox ι α capacity) :=
  match h : m.queue with
  | a :: queue => some (some a, { m with
      received := m.received ++ [a]
      queue
      room := by
        have hroom := m.room
        rw [h, List.length_cons] at hroom
        omega })
  | [] => if m.senders = [] then some (none, m) else none

/-- Every item that was sent, in order. -/
def history (m : Mailbox ι α capacity) : List α := m.received ++ m.queue

/-- Nothing is left, and nothing more can come. -/
def Over (m : Mailbox ι α capacity) : Prop := m.queue = [] ∧ m.senders = []

variable {m m' : Mailbox ι α capacity}

@[simp] theorem history_start (senders : List ι) :
    (start senders : Mailbox ι α capacity).history = [] := rfl

@[simp] theorem history_release (m : Mailbox ι α capacity) : m.release.history = m.history := rfl

@[simp] theorem senders_release (m : Mailbox ι α capacity) : m.release.senders = m.senders := rfl

@[simp] theorem reserved_release (m : Mailbox ι α capacity) :
    m.release.reserved = m.reserved - 1 := rfl

theorem reserve_eq_some (h : m.reserve = some m') :
    m'.history = m.history ∧ m'.senders = m.senders ∧ m'.received = m.received ∧
      m'.reserved = m.reserved + 1 := by
  unfold reserve at h
  split at h
  · cases h
    exact ⟨rfl, rfl, rfl, rfl⟩
  · cases h

theorem fill_eq_some {a : α} (h : m.fill a = some m') :
    m'.history = m.history ++ [a] ∧ m'.senders = m.senders ∧ m'.received = m.received ∧
      m'.reserved = m.reserved - 1 := by
  unfold fill at h
  split at h
  · cases h
    exact ⟨(List.append_assoc _ _ _).symm, rfl, rfl, rfl⟩
  · cases h

theorem send_eq_some {a : α} (h : m.send a = some m') :
    m'.history = m.history ++ [a] ∧ m'.senders = m.senders ∧ m'.received = m.received ∧
      m'.reserved = m.reserved := by
  unfold send at h
  obtain ⟨m₁, hreserve, hfill⟩ := Option.bind_eq_some_iff.1 h
  obtain ⟨hhistory, hsenders, hreceived, hreserved⟩ := reserve_eq_some hreserve
  obtain ⟨hhistory', hsenders', hreceived', hreserved'⟩ := fill_eq_some hfill
  exact ⟨by rw [hhistory', hhistory], hsenders'.trans hsenders, hreceived'.trans hreceived, by omega⟩

section

variable [DecidableEq ι]

@[simp] theorem history_leave (m : Mailbox ι α capacity) (i : ι) :
    (m.leave i).history = m.history := rfl

@[simp] theorem reserved_leave (m : Mailbox ι α capacity) (i : ι) :
    (m.leave i).reserved = m.reserved := rfl

theorem mem_leave {i j : ι} : j ∈ (m.leave i).senders ↔ j ∈ m.senders ∧ j ≠ i := by
  simp [leave]

end

/-- What the receiver can get. -/
theorem recv_cases {x : Option α} (h : m.recv = some (x, m')) :
    m'.history = m.history ∧ m'.senders = m.senders ∧ m'.reserved = m.reserved ∧
      m'.received = m.received ++ x.toList ∧ (x = none → m.Over ∧ m' = m) := by
  unfold recv at h
  split at h
  next a queue hqueue =>
    cases h
    exact ⟨by simp [history, hqueue], rfl, rfl, rfl, by simp⟩
  next hqueue =>
    split at h
    next hsenders =>
      cases h
      exact ⟨rfl, rfl, rfl, by simp, fun _ => ⟨⟨hqueue, hsenders⟩, rfl⟩⟩
    next => cases h

/-- The receiver is told of the end when it has everything. -/
theorem received_of_over (h : m.Over) : m.received = m.history := by
  rw [history, h.1, List.append_nil]

theorem received_isPrefix (m : Mailbox ι α capacity) : m.received <+: m.history :=
  List.prefix_append _ _

/-- With no sender left, the end stays the end. -/
theorem Over.leave [DecidableEq ι] (h : m.Over) (i : ι) : (m.leave i).Over :=
  ⟨h.1, by rw [Mailbox.leave, h.2]; rfl⟩

theorem Over.recv {x : Option α} (h : m.Over) (hrecv : m.recv = some (x, m')) : m'.Over := by
  have hnone : m.recv = some (none, m) := by
    obtain ⟨received, queue, reserved, senders, room⟩ := m
    obtain ⟨rfl, rfl⟩ := h
    rfl
  rw [hnone] at hrecv
  cases hrecv
  exact h

end Mailbox
