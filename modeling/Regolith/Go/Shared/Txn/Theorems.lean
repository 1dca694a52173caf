import Regolith.Go.Shared.Txn
import Regolith.Library.Discipline

-- What holds of a transaction's handle, however goroutines take turns.
namespace Regolith.Go.Shared.Txn

open Ffi Goroutine

-- `regolith_txn_commit` frees the handle whatever it returns, and `regolith_txn_free` does.
def Crossing.frees (c : Crossing) : Bool :=
  match c.call with
  | .regolith_txn_commit | .regolith_txn_free => c.t
  | _ => false

section Events

variable {ι σ : Type}

def isFreeing : Event ι (signature σ) → Bool
  | .start _ c => Crossing.frees c
  | _ => false

def isRelease : Event ι (signature σ) → Bool
  | .finish _ c _ => Crossing.frees c
  | _ => false

def Frees (events : List (Event ι (signature σ))) : Prop :=
  ∃ e ∈ events, isRelease e = true

-- `t.db.closed` was read, and set.
def SeesClosed (events : List (Event ι (signature σ))) : Prop :=
  ∃ g new, .access g .closed true new ∈ events

end Events

-- How often the handle was passed to a call that frees it, and how often one returned.
structure Count where
  begun : Nat
  freed : Nat
  deriving DecidableEq

variable {ι σ : Type}

theorem Frees.mono {τ τ' : List (Event ι (signature σ))} (h : Frees τ) (hsub : τ ⊆ τ') : Frees τ' :=
  h.imp fun _ he => ⟨hsub he.1, he.2⟩

def Live (v : View (signature σ) Count) : Prop :=
  v.flags .resolved = false ∧ v.flags .t = true ∧ v.ghost = ⟨0, 0⟩

def Resolved (v : View (signature σ) Count) : Prop :=
  v.flags .resolved = true ∧ v.flags .t = false ∧ v.ghost = ⟨1, 1⟩

def promise (m : Method) (entry : View (signature σ) Count)
    (mine : List (Event ι (signature σ))) (answer : Answer σ) : Prop :=
  match m with
  | .Discard => answer = .ok (.ok .nothing) ∧ (entry.ghost.freed = 0 → Frees mine)
  | .Commit =>
      (entry.ghost.freed = 0 → Frees mine ∨ answer = refuse .ErrClosed ∧ SeesClosed mine) ∧
      (SeesClosed mine → entry.ghost.freed = 0 ∧ ¬Starts mine ∧ answer = refuse .ErrClosed) ∧
      (entry.ghost.freed ≠ 0 → answer = refuse .ErrDiscarded)
  | _ =>
      entry.ghost.freed ≠ 0 →
        answer = refuse .ErrDiscarded ∨ answer = refuse .ErrClosed ∧ SeesClosed mine

def discipline (ι σ : Type) : Discipline ι (signature σ) Count where
  ghost := ⟨0, 0⟩
  started n c := if Crossing.frees c then { n with begun := n.begun + 1 } else n
  finished n c _ := if Crossing.frees c then { n with freed := n.freed + 1 } else n
  settled v := Live v ∨ Resolved v
  leaves _ v := Live v ∨ Resolved v
  always v := v.ghost.begun ≤ 1 ∧ v.ghost.freed ≤ v.ghost.begun
  allows v held c :=
    c.t = true ∧ v.ghost.begun = 0 ∧ (Crossing.frees c = true → held = .write)
  post := promise

variable {g : ι}

theorem always_of_settled {v : View (signature σ) Count} (h : Live v ∨ Resolved v) :
    (discipline ι σ).always v := by
  rcases h with ⟨-, -, hghost⟩ | ⟨-, -, hghost⟩ <;> simp [discipline, hghost]

-- What `begin` guards: a crossing that does not free the handle.
theorem begin_safe {m : Method} (hm : m ≠ .Commit ∧ m ≠ .Discard) (call : FfiCall)
    (hcall : Crossing.frees ⟨true, call⟩ = false) (answer : call.Reply σ → Answer σ) :
    Safe (object σ) (discipline ι σ) g m
      (begin (cross call fun reply => .unlock .read (.ret (answer reply)))) .before := by
  refine .lock fun x hx => .load_outside rfl fun closed => ?_
  have halways : (discipline ι σ).always x := always_of_settled hx
  cases closed with
  | true =>
    refine .unlock hx (.ret ?_)
    cases m <;> simp_all [discipline, promise, SeesClosed]
  | false =>
    rcases hx with hlive | hresolved
    · refine .load rfl halways hlive.1 (.load rfl halways hlive.2.1 ?_)
      refine .call_unnoted ⟨rfl, by simp [hlive.2.2], by simp [hcall]⟩ halways
        (by simp [discipline, hcall]) (by simp [discipline, hcall]) fun reply => ?_
      refine .unlock (.inl hlive) (.ret ?_)
      cases m <;> simp_all [discipline, promise, Live]
    · refine .load rfl halways hresolved.1 (.unlock (.inr hresolved) (.ret ?_))
      cases m <;> simp_all [discipline, promise]

theorem commit_safe :
    Safe (object σ) (discipline ι σ) g .Commit (Commit : Code σ) .before := by
  refine .lock fun x hx => ?_
  have halways : (discipline ι σ).always x := always_of_settled hx
  rcases hx with hlive | hresolved
  · refine .load rfl halways hlive.1 (.load_outside rfl fun closed => ?_)
    cases closed with
    | true =>
      refine .unlock (.inl hlive) (.ret ?_)
      simp [discipline, promise, Starts, Event.isStart, SeesClosed, hlive.2.2]
    | false =>
      refine .load rfl halways hlive.2.1 (.call_write ⟨rfl, by simp [hlive.2.2], fun _ => rfl⟩
        (by simp [discipline, Crossing.frees, hlive.2.2]) fun (reply : Reply Unit) => ?_)
      refine ⟨by simp [discipline, Crossing.frees, hlive.2.2], ?_⟩
      refine .store rfl (by simp [discipline, Crossing.frees, View.set, hlive.2.2]) ?_
      refine .store rfl (by simp [discipline, Crossing.frees, View.set, hlive.2.2]) ?_
      refine .unlock (.inr ?_) (.ret ?_)
      · simp [Resolved, discipline, Crossing.frees, View.set, hlive.2.2]
      · simp [discipline, promise, Frees, isRelease, Crossing.frees, SeesClosed, hlive.2.2]
  · refine .load rfl halways hresolved.1 (.unlock (.inr hresolved) (.ret ?_))
    simp [discipline, promise, SeesClosed, hresolved.2.2]

theorem discard_safe :
    Safe (object σ) (discipline ι σ) g .Discard (Discard : Code σ) .before := by
  refine .lock fun x hx => ?_
  have halways : (discipline ι σ).always x := always_of_settled hx
  rcases hx with hlive | hresolved
  · refine .load rfl halways hlive.1 (.load rfl halways hlive.2.1 ?_)
    refine .call_write ⟨rfl, by simp [hlive.2.2], fun _ => rfl⟩
      (by simp [discipline, Crossing.frees, hlive.2.2]) fun reply => ?_
    refine ⟨by simp [discipline, Crossing.frees, hlive.2.2], ?_⟩
    refine .store rfl (by simp [discipline, Crossing.frees, View.set, hlive.2.2]) ?_
    refine .store rfl (by simp [discipline, Crossing.frees, View.set, hlive.2.2]) ?_
    refine .unlock (.inr ?_) (.ret ?_)
    · simp [Resolved, discipline, Crossing.frees, View.set, hlive.2.2]
    · simp [discipline, promise, Frees, isRelease, Crossing.frees]
  · refine .load rfl halways hresolved.1 (.unlock (.inr hresolved) (.ret ?_))
    simp [discipline, promise, hresolved.2.2]

theorem kept : (discipline ι σ).Kept (object σ) where
  settled_first := .inl ⟨rfl, rfl, rfl⟩
  settled_always := always_of_settled
  leaves_settled := id
  bodies g m := by
    cases m with
    | Get key => exact begin_safe (by simp) _ rfl _
    | Has key => exact begin_safe (by simp) _ rfl _
    | Set key value => exact begin_safe (by simp) _ rfl _
    | Delete key => exact begin_safe (by simp) _ rfl _
    | NewIter opts => exact begin_safe (by simp) _ rfl _
    | Commit => exact commit_safe
    | Discard => exact discard_safe

theorem started_eq (n : Count) (c : Crossing) :
    (discipline ι σ).started n c =
      if Crossing.frees c then { n with begun := n.begun + 1 } else n := rfl

theorem finished_eq (n : Count) (c : Crossing) (r : c.call.Reply σ) :
    (discipline ι σ).finished n c r =
      if Crossing.frees c then { n with freed := n.freed + 1 } else n := rfl

theorem ghost_eq (τ : List (Event ι (signature σ))) :
    (view (object σ) (discipline ι σ) τ).ghost = ⟨τ.countP isFreeing, τ.countP isRelease⟩ := by
  induction τ using List.reverseRecOn with
  | nil => rfl
  | append_singleton τ e ih =>
    rw [view_snoc (o := object σ), List.countP_append, List.countP_append]
    cases e with
    | access g flag old new =>
      simp only [View.step]
      split_ifs <;> simpa [isFreeing, isRelease] using ih
    | start g c =>
      by_cases hfrees : Crossing.frees c = true <;>
        simp [View.step, isFreeing, isRelease, started_eq, hfrees, ih]
    | finish g c r =>
      by_cases hfrees : Crossing.frees c = true <;>
        simp [View.step, isFreeing, isRelease, finished_eq, hfrees, ih]
    | _ => simpa [View.step, isFreeing, isRelease] using ih

theorem frees_iff (τ : List (Event ι (signature σ))) :
    Frees τ ↔ (view (object σ) (discipline ι σ) τ).ghost.freed ≠ 0 := by
  rw [ghost_eq, ← Nat.pos_iff_ne_zero, List.countP_pos_iff, Frees]

-- What a run keeps to, of the handle and of what the methods return.
structure FreedOnce [DecidableEq ι] (τ : List (Event ι (signature σ))) : Prop where
  once : τ.countP isRelease ≤ 1
  on_handle : ∀ {g c}, .start g c ∈ τ → c.t = true
  alone : ∀ {pre g c post}, τ = pre ++ .start g c :: post → Crossing.frees c = true →
    (∀ g', pending g' pre = none) ∧ ¬Starts post
  released : ∀ {pre g c r post}, τ = pre ++ .finish g c r :: post → Crossing.frees c = true →
    (∀ g', g' ≠ g → pending g' pre = none) ∧ ¬Starts post
  returned : ∀ {pre g m answer post}, τ = pre ++ .leave g m answer :: post →
    m = .Discard ∨ m = .Commit ∧ answer ≠ refuse .ErrClosed → Frees pre
  refused : ∀ {g answer pre mid}, Visit τ g .Commit answer pre mid → SeesClosed (own g mid) →
    answer = refuse .ErrClosed ∧ ¬Frees pre ∧ ¬Starts (own g mid)
  discards : ∀ {g answer pre mid}, Visit τ g .Discard answer pre mid → ¬Frees pre →
    Frees (own g mid)
  afterwards : ∀ {g m answer pre mid}, Visit τ g m answer pre mid → Frees pre →
    ¬Starts (own g mid) ∧
      match m with
      | .Discard => answer = .ok (.ok .nothing)
      | .Commit => answer = refuse .ErrDiscarded
      | _ => answer = refuse .ErrDiscarded ∨
          answer = refuse .ErrClosed ∧ (.raise .closed ∈ pre ∨ .raise .closed ∈ mid)

section Runs

variable [DecidableEq ι] {τ pre mid post : List (Event ι (signature σ))}
  {s : State ι (signature σ)}

theorem not_starts_after (run : Runs (object σ) τ s) {c : Crossing}
    (hτ : τ = pre ++ .start g c :: post) (hfrees : Crossing.frees c = true) : ¬Starts post := by
  rintro ⟨e, he, hstart⟩
  cases e with
  | start g' c' =>
    obtain ⟨front, back, rfl⟩ := List.append_of_mem he
    rw [hτ, show pre ++ .start g c :: (front ++ .start g' c' :: back) =
      (pre ++ .start g c :: front) ++ .start g' c' :: back by simp] at run
    obtain ⟨held, ⟨-, hnone, -⟩, -⟩ := kept.allowed run
    rw [ghost_eq] at hnone
    simp [isFreeing, hfrees] at hnone
  | _ => simp [Event.isStart] at hstart

theorem alone (run : Runs (object σ) τ s) {c : Crossing}
    (hτ : τ = pre ++ .start g c :: post) (hfrees : Crossing.frees c = true) (g' : ι) :
    pending g' pre = none := by
  obtain ⟨held, ⟨-, -, hwrite⟩, hout⟩ := kept.allowed (hτ ▸ run)
  exact hout (hwrite hfrees) g'

-- The call behind a release, and what lies around it.
theorem called_of_released (run : Runs (object σ) τ s) {c : Crossing} {r : c.call.Reply σ}
    (hτ : τ = pre ++ .finish g c r :: post) (hfrees : Crossing.frees c = true) :
    ∃ before between, pre = before ++ .start g c :: between ∧ (∀ g', pending g' before = none) ∧
      ¬Starts (between ++ .finish g c r :: post) := by
  obtain ⟨before, between, hpre⟩ := List.append_of_mem (Runs.start_of_finish (hτ ▸ run))
  have hsplit : τ = before ++ .start g c :: (between ++ .finish g c r :: post) := by
    simp [hτ, hpre]
  exact ⟨before, between, hpre, alone run hsplit hfrees, not_starts_after run hsplit hfrees⟩

theorem not_starts_of_frees (run : Runs (object σ) τ s) (hτ : τ = pre ++ post)
    (hfrees : Frees pre) : ¬Starts post := by
  obtain ⟨e, he, hrelease⟩ := hfrees
  cases e with
  | finish g c r =>
    obtain ⟨front, back, hpre⟩ := List.append_of_mem he
    have hsplit : τ = front ++ .finish g c r :: (back ++ post) := by simp [hτ, hpre]
    obtain ⟨before, between, -, -, hnone⟩ := called_of_released run hsplit hrelease
    rintro ⟨e, he, hstart⟩
    exact hnone ⟨e, by simp [he], hstart⟩
  | _ => simp [isRelease] at hrelease

theorem released (run : Runs (object σ) τ s) {c : Crossing} {r : c.call.Reply σ}
    (hτ : τ = pre ++ .finish g c r :: post) (hfrees : Crossing.frees c = true) :
    (∀ g', g' ≠ g → pending g' pre = none) ∧ ¬Starts post := by
  obtain ⟨before, between, rfl, halone, hnone⟩ := called_of_released run hτ hfrees
  refine ⟨fun g' hg => ?_, fun ⟨e, he, hstart⟩ => hnone ⟨e, by simp [he], hstart⟩⟩
  have hcalled : pending g' (before ++ [.start g c]) = none := by
    simp [pending_snoc, Ne.symm hg, halone g']
  rw [show before ++ .start g c :: between = (before ++ [.start g c]) ++ between by simp]
  refine pending_append_eq_none hcalled fun e he => ?_
  by_contra hstart
  exact hnone ⟨e, List.mem_append_left _ he, by simpa using hstart⟩

theorem returned (run : Runs (object σ) τ s) {m : Method} {answer : Answer σ}
    (hτ : τ = pre ++ .leave g m answer :: post)
    (hm : m = .Discard ∨ m = .Commit ∧ answer ≠ refuse .ErrClosed) : Frees pre := by
  obtain ⟨entry, mine, ⟨front, mode, mid, rfl, -, rfl, rfl⟩, hpost⟩ := kept.left (hτ ▸ run)
  -- it was released before the lock was taken, or by this call
  have hfrees : Frees front ∨ Frees (own g mid) := by
    by_cases hfront : Frees front
    · exact .inl hfront
    · have hfreed := not_not.mp (mt (frees_iff front).mpr hfront)
      rcases hm with rfl | ⟨rfl, hanswer⟩
      · exact .inr (hpost.2 hfreed)
      · exact .inr ((hpost.1 hfreed).resolve_right fun h => hanswer h.1)
  rcases hfrees with h | h
  · exact h.mono (List.subset_append_left _ _)
  · exact h.mono fun e he => List.mem_append_right _ (List.mem_cons_of_mem _ (own_subset g mid he))

-- Who sees the flag set comes after `DB.Close`.
theorem raised_of_seesClosed (run : Runs (object σ) τ s) {m : Method} {answer : Answer σ}
    (visit : Visit τ g m answer pre mid) (h : SeesClosed (own g mid)) :
    .raise .closed ∈ pre ∨ .raise .closed ∈ mid := by
  obtain ⟨mode, post, rfl⟩ := visit.split
  obtain ⟨g', new, h⟩ := h
  obtain ⟨front, back, rfl⟩ := List.append_of_mem (own_subset g mid h)
  rw [show pre ++ .lock g mode :: (front ++ .access g' .closed true new :: back) ++
      .leave g m answer :: post = (pre ++ .lock g mode :: front) ++
        .access g' .closed true new :: (back ++ .leave g m answer :: post) by simp] at run
  have hraised := (kept.outside_read run rfl).resolve_left (by simp [object])
  simp only [List.mem_append, List.mem_cons, reduceCtorEq, false_or] at hraised ⊢
  exact hraised.imp_right .inl

theorem handle_freed_once (run : Runs (object σ) τ s) : FreedOnce τ where
  once := by
    obtain ⟨hbegun, hfreed⟩ := (kept.sound run).always
    rw [ghost_eq] at hbegun hfreed
    exact hfreed.trans hbegun
  on_handle h := by
    obtain ⟨pre, post, rfl⟩ := List.append_of_mem h
    obtain ⟨held, hallows, -⟩ := kept.allowed run
    exact hallows.1
  alone hτ hfrees := ⟨alone run hτ hfrees, not_starts_after run hτ hfrees⟩
  released hτ hfrees := released run hτ hfrees
  returned hτ hm := returned run hτ hm
  refused visit hsees := by
    obtain ⟨hfreed, hstarts, hanswer⟩ := (kept.post_of run visit).2.1 hsees
    exact ⟨hanswer, fun hfrees => (frees_iff _).mp hfrees hfreed, hstarts⟩
  discards visit hfrees :=
    (kept.post_of run visit).2 (not_not.mp (mt (frees_iff _).mpr hfrees))
  afterwards {g m answer pre mid} visit hfrees := by
    have hpost := kept.post_of run visit
    have hfreed := (frees_iff pre).mp hfrees
    constructor
    · obtain ⟨mode, post, hτ⟩ := visit.split
      have hnone := not_starts_of_frees run (hτ.trans (List.append_assoc _ _ _)) hfrees
      rintro ⟨e, he, hstart⟩
      exact hnone ⟨e, by simp [own_subset g mid he], hstart⟩
    · cases m with
      | Discard => exact hpost.1
      | Commit => exact hpost.2.2 hfreed
      | _ => exact (hpost hfreed).imp_right fun h => ⟨h.1, raised_of_seesClosed run visit h.2⟩

end Runs

-- A Discard, then a Get by another goroutine.
theorem handle_freed_once_discard :
    FreedOnce (ι := Nat) (σ := Unit)
      [.enter 0 .Discard, .lock 0 .write, .access 0 .resolved false false,
        .access 0 .t true true, .start 0 ⟨true, .regolith_txn_free⟩,
        .finish 0 ⟨true, .regolith_txn_free⟩ (⟨OK, none, some ()⟩ : Reply Unit),
        .access 0 .resolved false true, .access 0 .t true false, .unlock 0 .write,
        .leave 0 .Discard (.ok (.ok .nothing)),
        .enter 1 (.Get [7]), .lock 1 .read, .access 1 .closed false false,
        .access 1 .resolved true true, .unlock 1 .read,
        .leave 1 (.Get [7]) (refuse .ErrDiscarded)] := by
  have run : Runs (object Unit) ([] : List (Event Nat (signature Unit))) _ := .nil
  have run := run.snoc (.enter (g := 0) (m := Method.Discard) rfl)
  have run := run.snoc (.lock (g := 0) rfl rfl)
  have run := run.snoc (.access (g := 0) rfl)
  have run := run.snoc (.access (g := 0) rfl)
  have run := run.snoc (.start (g := 0) rfl)
  have run := run.snoc (.finish (g := 0) (⟨OK, none, some ()⟩ : Reply Unit) rfl)
  have run := run.snoc (.access (g := 0) rfl)
  have run := run.snoc (.access (g := 0) rfl)
  have run := run.snoc (.unlock (g := 0) rfl rfl)
  have run := run.snoc (.leave (g := 0) rfl)
  have run := run.snoc (.enter (g := 1) (m := Method.Get [7]) rfl)
  have run := run.snoc (.lock (g := 1) rfl rfl)
  have run := run.snoc (.access (g := 1) rfl)
  have run := run.snoc (.access (g := 1) rfl)
  have run := run.snoc (.unlock (g := 1) rfl rfl)
  have run := run.snoc (.leave (g := 1) rfl)
  exact handle_freed_once run

end Regolith.Go.Shared.Txn
