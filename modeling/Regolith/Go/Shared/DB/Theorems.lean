import Regolith.Go.Shared.DB
import Regolith.Library.Discipline

-- What holds of the store handle, however goroutines take turns.
namespace Regolith.Go.Shared.DB

open Ffi Goroutine

variable {ι σ : Type}

def FfiCall.closes : FfiCall → Bool
  | .regolith_db_close => true
  | _ => false

def isClose : Event ι (signature σ) → Bool
  | .start _ c => FfiCall.closes c
  | _ => false

def promise (m : Method) (entry : View (signature σ) Nat) (mine : List (Event ι (signature σ)))
    (answer : Answer σ) : Prop :=
  match m with
  | .Close =>
      (entry.ghost = 0 → ∃ e ∈ mine, isClose e = true) ∧
      (entry.ghost ≠ 0 → ¬Starts mine ∧ answer = .ok (.ok .nothing))
  | _ => entry.ghost ≠ 0 → ¬Starts mine ∧ answer = refuse .ErrClosed

-- The ghost is how often the store was passed to `regolith_db_close`.
def Settled (v : View (signature σ) Nat) : Prop :=
  v.flags .closed = false ∧ v.ghost = 0 ∨ v.flags .closed = true ∧ v.ghost = 1

def discipline (ι σ : Type) : Discipline ι (signature σ) Nat where
  ghost := 0
  started n c := if FfiCall.closes c then n + 1 else n
  finished n _ _ := n
  settled := Settled
  leaves held v := Settled v ∧ (held = .write → v.ghost = 1)
  always v := v.ghost ≤ 1
  allows v held c := v.ghost = 0 ∧ (FfiCall.closes c = true → held = .write)
  post := promise

variable {g : ι}

theorem always_of_settled {v : View (signature σ) Nat} (h : Settled v) : v.ghost ≤ 1 := by
  rcases h with ⟨-, hghost⟩ | ⟨-, hghost⟩ <;> simp [hghost]

-- Behind `opened`, the store is open for as long as the method holds the lock.
theorem opened_safe {m : Method} (hm : m ≠ .Close) {next : Code σ}
    (hnext : ∀ x : View (signature σ) Nat, Settled x → x.ghost = 0 →
      Safe (object σ) (discipline ι σ) g m next
        (.inside .read x [.access g .closed false false] x)) :
    Safe (object σ) (discipline ι σ) g m (opened next) .before := by
  refine .lock fun x hx => ?_
  have halways : (discipline ι σ).always x := always_of_settled hx
  rcases hx with ⟨hopen, hghost⟩ | ⟨hclosed, hghost⟩
  · exact .load rfl halways hopen (hnext x (.inl ⟨hopen, hghost⟩) hghost)
  · refine .load rfl halways hclosed (.unlock ⟨.inr ⟨hclosed, hghost⟩, nofun⟩ (.ret ?_))
    cases m <;> simp_all [discipline, promise, Starts, Event.isStart]

theorem call_safe {m : Method} (hm : m ≠ .Close) (call : FfiCall)
    (hcall : FfiCall.closes call = false) (answer : call.Reply σ → Answer σ) :
    Safe (object σ) (discipline ι σ) g m
      (opened (.call call fun reply => .unlock .read (.ret (answer reply)))) .before := by
  refine opened_safe hm fun x hx hghost => ?_
  have halways : (discipline ι σ).always x := always_of_settled hx
  refine .call_unnoted ⟨hghost, by simp [hcall]⟩ halways (by simp [discipline, hcall])
    (fun _ => rfl) fun reply => .unlock ⟨hx, nofun⟩ (.ret ?_)
  cases m <;> simp_all [discipline, promise]

theorem write_safe (b : Option WriteBatch) :
    Safe (object σ) (discipline ι σ) g (.Write b) (Write b : Code σ) .before := by
  have hskip : Safe (object σ) (discipline ι σ) g (.Write b)
      (opened (.unlock .read (.ret (.ok (.ok .nothing)))) : Code σ) .before :=
    opened_safe (by simp) fun x hx hghost =>
      .unlock ⟨hx, nofun⟩ (.ret fun hclosed => absurd hghost hclosed)
  cases b with
  | none => exact hskip
  | some batch =>
    by_cases hn : batch.n = 0
    · simpa [Write, hn] using hskip
    · have hwrite : (Write (some batch) : Code σ) =
          opened (.call (.regolith_db_write (bytePtr batch.buf)) fun (reply : Reply Unit) =>
            .unlock .read (.ret (checked reply fun _ => .nothing))) := by
        simp [Write, hn]
      rw [hwrite]
      exact call_safe (by simp) _ rfl _

theorem close_safe : Safe (object σ) (discipline ι σ) g .Close (Close : Code σ) .before := by
  refine .lock fun x hx => ?_
  rcases hx with ⟨hopen, hghost⟩ | ⟨hclosed, hghost⟩
  · refine .compareAndSwap rfl (if_pos hopen) (by simp [discipline, View.set, hghost]) ?_
    simp only [hopen]
    refine .call_write ⟨hghost, fun _ => rfl⟩
      (by simp [discipline, FfiCall.closes, View.set, hghost]) fun (reply : Reply Unit) => ?_
    refine ⟨by simp [discipline, FfiCall.closes, View.set, hghost],
      .unlock ⟨.inr ?_, fun _ => ?_⟩ (.ret ?_)⟩
    · simp [discipline, FfiCall.closes, View.set, hghost]
    · simp [discipline, FfiCall.closes, View.set, hghost]
    · simp [discipline, promise, isClose, FfiCall.closes, hghost]
  · have hkeeps : (if x.flags .closed = false then true else x.flags .closed) = true := by
      simp [hclosed]
    refine .compareAndSwap rfl hkeeps (by simp [discipline, View.set, hghost]) ?_
    simp only [hclosed]
    refine .unlock ⟨.inr ?_, fun _ => hghost⟩ (.ret ?_)
    · simp [View.set, hghost]
    · simp [discipline, promise, Starts, Event.isStart, hghost]

theorem kept : (discipline ι σ).Kept (object σ) where
  settled_first := .inl ⟨rfl, rfl⟩
  settled_always := always_of_settled
  leaves_settled h := h.1
  bodies g m := by
    cases m with
    | Get key => exact call_safe (by simp) _ rfl _
    | Has key => exact call_safe (by simp) _ rfl _
    | Set key value => exact call_safe (by simp) _ rfl _
    | Delete key => exact call_safe (by simp) _ rfl _
    | Write b => exact write_safe b
    | DropAll => exact call_safe (by simp) _ rfl _
    | NewIter opts => exact call_safe (by simp) _ rfl _
    | NewTxn readOnly => exact call_safe (by simp) _ rfl _
    | Close => exact close_safe

theorem ghost_eq (τ : List (Event ι (signature σ))) :
    (view (object σ) (discipline ι σ) τ).ghost = τ.countP isClose := by
  induction τ using List.reverseRecOn with
  | nil => rfl
  | append_singleton τ e ih =>
    rw [view_snoc (o := object σ), List.countP_append, ← ih]
    cases e with
    | start g c =>
      by_cases hcloses : FfiCall.closes c = true <;>
        simp [View.step, isClose, discipline, hcloses]
    | _ => rfl

-- What a run keeps to, of the handle and of what the methods return.
structure ClosedOnce [DecidableEq ι] (τ : List (Event ι (signature σ))) : Prop where
  once : τ.countP isClose ≤ 1
  alone : ∀ {pre g post}, τ = pre ++ .start g FfiCall.regolith_db_close :: post →
    (∀ g', pending g' pre = none) ∧ ¬Starts post
  first : ∀ {g answer pre mid}, Visit τ g .Close answer pre mid → (∀ e ∈ pre, isClose e = false) →
    ∃ e ∈ own g mid, isClose e = true
  afterwards : ∀ {g m answer pre mid}, Visit τ g m answer pre mid → (∃ g', .unlock g' .write ∈ pre) →
    ¬Starts (own g mid) ∧
      match m with
      | .Close => answer = .ok (.ok .nothing)
      | _ => answer = refuse .ErrClosed

section Runs

variable [DecidableEq ι] {τ pre mid post : List (Event ι (signature σ))}
  {s : State ι (signature σ)}

-- Only `Close` gives back the write side.
theorem closed_of_unlocked (run : Runs (object σ) τ s) (hτ : τ = pre ++ post) {g' : ι}
    (h : .unlock g' .write ∈ pre) : (view (object σ) (discipline ι σ) pre).ghost ≠ 0 := by
  obtain ⟨front, back, rfl⟩ := List.append_of_mem h
  rw [hτ, List.append_assoc, List.cons_append] at run
  have hclosed := (kept.unlocked run).2 rfl
  rw [ghost_eq] at hclosed ⊢
  simp [hclosed]

theorem store_closed_once (run : Runs (object σ) τ s) : ClosedOnce τ where
  once := ghost_eq τ ▸ (kept.sound run).always
  alone {pre g post} hτ := by
    subst hτ
    obtain ⟨held, ⟨-, hwrite⟩, hout⟩ := kept.allowed run
    refine ⟨hout (hwrite rfl), fun ⟨e, he, hstart⟩ => ?_⟩
    cases e with
    | start g' c =>
      obtain ⟨front, back, rfl⟩ := List.append_of_mem he
      rw [← List.cons_append, ← List.append_assoc] at run
      obtain ⟨held, ⟨hnone, -⟩, -⟩ := kept.allowed run
      rw [ghost_eq] at hnone
      simp [isClose, FfiCall.closes] at hnone
    | _ => simp [Event.isStart] at hstart
  first {g answer pre mid} visit hpre := by
    refine (kept.post_of run visit).1 ?_
    rw [ghost_eq]
    exact List.countP_eq_zero.mpr fun e he => by simp [hpre e he]
  afterwards {g m answer pre mid} visit hunlocked := by
    obtain ⟨mode, post, hτ⟩ := visit.split
    obtain ⟨g', hunlock⟩ := hunlocked
    have hclosed := closed_of_unlocked run (hτ.trans (List.append_assoc _ _ _)) hunlock
    have hpost := kept.post_of run visit
    cases m with
    | Close => exact hpost.2 hclosed
    | _ => exact hpost hclosed

end Runs

-- A Close, then an empty Write and a Close by other goroutines.
theorem store_closed_once_twice :
    ClosedOnce (ι := Nat) (σ := Unit)
      [.enter 0 .Close, .lock 0 .write, .access 0 .closed false true,
        .start 0 .regolith_db_close,
        .finish 0 .regolith_db_close (⟨OTHER, some "disk full", none⟩ : Reply Unit),
        .enter 1 (.Write none), .unlock 0 .write,
        .leave 0 .Close (.ok (.error ⟨.ErrUnexpected, "disk full"⟩)),
        .lock 1 .read, .access 1 .closed true true, .unlock 1 .read,
        .leave 1 (.Write none) (refuse .ErrClosed),
        .enter 2 .Close, .lock 2 .write, .access 2 .closed true true, .unlock 2 .write,
        .leave 2 .Close (.ok (.ok .nothing))] := by
  have run : Runs (object Unit) ([] : List (Event Nat (signature Unit))) _ := .nil
  have run := run.snoc (.enter (g := 0) (m := Method.Close) rfl)
  have run := run.snoc (.lock (g := 0) rfl rfl)
  have run := run.snoc (.access (g := 0) rfl)
  have run := run.snoc (.start (g := 0) rfl)
  have run := run.snoc (.finish (g := 0) (⟨OTHER, some "disk full", none⟩ : Reply Unit) rfl)
  have run := run.snoc (.enter (g := 1) (m := Method.Write none) rfl)
  have run := run.snoc (.unlock (g := 0) rfl rfl)
  have run := run.snoc (.leave (g := 0) rfl)
  have run := run.snoc (.lock (g := 1) rfl rfl)
  have run := run.snoc (.access (g := 1) rfl)
  have run := run.snoc (.unlock (g := 1) rfl rfl)
  have run := run.snoc (.leave (g := 1) rfl)
  have run := run.snoc (.enter (g := 2) (m := Method.Close) rfl)
  have run := run.snoc (.lock (g := 2) rfl rfl)
  have run := run.snoc (.access (g := 2) rfl)
  have run := run.snoc (.unlock (g := 2) rfl rfl)
  have run := run.snoc (.leave (g := 2) rfl)
  exact store_closed_once run

end Regolith.Go.Shared.DB
