import Vaux.Broker.Invariant
import Vaux.Broker.Transitions

/-!
# The lock of the pool

Who holds the lock of the pool, as far as the tasks' lists of actions show it: the writer
is a connection about to enroll, and the readers are the tasks between `lockPool` and
`leavePool`.
-/

namespace Vaux
namespace Broker

open Wire Mqtt Machine

namespace Action

/-- The actions of `route_publish` under the read lock of the pool, and the one that takes it. -/
def inPool : Action → Bool
  | .lockPool | .deliver .. | .leavePool => true
  | _ => false

def delivers : Action → Bool
  | .deliver .. => true
  | _ => false

end Action

/-- The task is between `lockPool` and `leavePool`. -/
def Reading (todo : List Action) : Prop :=
  ∃ delivers rest, todo = delivers ++ .leavePool :: rest ∧ (∀ x ∈ delivers, x.delivers = true) ∧
    ∀ x ∈ rest, x.inPool = false

/-- The task is about to route, or is not routing. -/
def Outside (todo : List Action) : Prop :=
  (∃ todo', todo = .lockPool :: todo' ∧ Reading todo') ∨ ∀ x ∈ todo, x.inPool = false

structure Locked (s : State) : Prop where
  writer : ∀ t, s.shared.poolWriter = some t → ∃ x, (s.tasks t).todo = [x] ∧ x.holds.isSome = true
  exclusive : s.shared.poolWriter ≠ none → s.shared.poolReaders = []
  nodup : s.shared.poolReaders.Nodup
  reading : ∀ t ∈ s.shared.poolReaders, Reading (s.tasks t).todo
  outside : ∀ t, t ∉ s.shared.poolReaders → Outside (s.tasks t).todo
  /-- A delayed will has nothing to do before its timer. -/
  timer : ∀ token, s.shared.nextToken ≤ token ∨ (s.shared.delays token).waiting = true →
    (s.tasks (.delay token)).todo = []

theorem locked_start (config : Config) : Locked (.start config) := by
  refine ⟨fun t ht => ?_, fun _ => rfl, List.nodup_nil, fun t ht => ?_, fun t _ => ?_, fun _ _ => rfl⟩
  · cases ht
  · cases ht
  · exact .inr (List.forall_mem_nil _)

/-! ## Actions -/

namespace Shared

section

variable {sh sh' : Shared} {t : TaskId} {c : Choice} {a : Action} {next : Next}

theorem delivered_locks {publish : Publish} {sender : String} {sub : Subscriber}
    (h : Delivered sh publish sender sub sh') :
    sh'.poolWriter = sh.poolWriter ∧ sh'.poolReaders = sh.poolReaders ∧ sh'.delays = sh.delays ∧
      sh'.nextToken = sh.nextToken := by
  cases h <;> exact ⟨rfl, rfl, rfl, rfl⟩

theorem choose_locks (sh : Shared) (a : Admission) :
    (sh.choose a).1.poolReaders = sh.poolReaders ∧ (sh.choose a).1.delays = sh.delays ∧
      (sh.choose a).1.nextToken = sh.nextToken ∧ (sh.choose a).2.holds.isSome = true := by
  rcases choose_cases sh a with ⟨_, pool, -, -, heq, hholds⟩ | ⟨ref, pool, sessions, -, heq, hholds⟩ |
    ⟨ref, -, heq, hholds⟩ | ⟨-, -, heq, hholds⟩
  all_goals
    rw [heq, hholds]
    exact ⟨rfl, rfl, rfl, rfl⟩

theorem adopt_same (sh : Shared) (a : Admission) (ref : Ref) :
    (sh.adopt a ref).poolReaders = sh.poolReaders ∧ (sh.adopt a ref).nextToken = sh.nextToken ∧
      (sh.adopt a ref).delays = (sh.cancel (sh.sessions ref).pendingWill).delays ∧
      (sh.adopt a ref).tree = sh.tree := by
  have hclose : ∀ (token : Option Token) (ch : Option ChannelId),
      ((sh.cancel token).close ch).poolReaders = sh.poolReaders ∧
        ((sh.cancel token).close ch).nextToken = sh.nextToken ∧
        ((sh.cancel token).close ch).delays = (sh.cancel token).delays ∧
        ((sh.cancel token).close ch).tree = sh.tree := by
    intro token ch
    cases token <;> cases ch <;> exact ⟨rfl, rfl, rfl, rfl⟩
  exact hclose _ _

/-- Cancelling a timer does not set it off. -/
theorem waiting_cancel (sh : Shared) (token : Option Token) (token' : Token) :
    ((sh.cancel token).delays token').waiting = (sh.delays token').waiting := by
  cases token with
  | none => rfl
  | some token =>
      by_cases h : token' = token
      · subst h
        simp [cancel]
      · simp [cancel, h]

/-- The writer changes when a connection enters the pool and when it enrolls. -/
theorem poolWriter_of_performed (h : Performed sh t c a sh' next) :
    sh'.poolWriter = sh.poolWriter ∨
      (∃ x, sh.poolFree = true ∧ sh'.poolWriter = some t ∧ a = .enterPool x ∧
        next = .go [(sh.choose x).2]) ∨
      sh'.poolWriter = none ∧ ∃ x target, a = .enroll x target := by
  cases h with
  | enter x hfree _ => exact .inr (.inl ⟨x, hfree, rfl, rfl, rfl⟩)
  | register x => exact .inr (.inr ⟨rfl, x, none, rfl⟩)
  | adopt x ref => exact .inr (.inr ⟨rfl, x, some ref, rfl⟩)
  | deliver publish sender sub _ hdeliver =>
      exact .inl (delivered_locks (delivered_of_deliver hdeliver)).1
  | setPendingWill ref token _ =>
      left
      cases (sh.sessions ref).pendingWill <;> rfl
  | _ => exact .inl rfl

theorem poolReaders_of_performed (h : Performed sh t c a sh' next) (hlock : a ≠ .lockPool)
    (hleave : a ≠ .leavePool) : sh'.poolReaders = sh.poolReaders := by
  cases h with
  | enter x _ _ => exact (choose_locks sh x).1
  | lockPool _ => exact absurd rfl hlock
  | leavePool => exact absurd rfl hleave
  | deliver publish sender sub _ hdeliver =>
      exact (delivered_locks (delivered_of_deliver hdeliver)).2.1
  | adopt x ref => exact (adopt_same sh x ref).1
  | setPendingWill ref token _ => cases (sh.sessions ref).pendingWill <;> rfl
  | _ => rfl

/-- A timer is set by nothing but a will with a delay, and stopped by no action. -/
theorem waiting_of_performed (h : Performed sh t c a sh' next) :
    sh.nextToken ≤ sh'.nextToken ∧ sh'.nextToken ≤ sh.nextToken + 1 ∧
      ∀ token, token ≠ sh.nextToken ∨ sh'.nextToken = sh.nextToken →
        (sh'.delays token).waiting = (sh.delays token).waiting := by
  have hsame : ∀ sh'' : Shared, sh''.nextToken = sh.nextToken → sh''.delays = sh.delays →
      sh.nextToken ≤ sh''.nextToken ∧ sh''.nextToken ≤ sh.nextToken + 1 ∧
        ∀ token, token ≠ sh.nextToken ∨ sh''.nextToken = sh.nextToken →
          (sh''.delays token).waiting = (sh.delays token).waiting := by
    intro sh'' hnext hdelays
    exact ⟨hnext.ge, hnext.le.trans (Nat.le_succ _), fun token _ => by rw [hdelays]⟩
  cases h with
  | enter x _ _ => exact hsame _ (choose_locks sh x).2.2.1 (choose_locks sh x).2.1
  | deliver publish sender sub _ hdeliver =>
      obtain ⟨-, -, hdelays, hnext⟩ := delivered_locks (delivered_of_deliver hdeliver)
      exact hsame _ hnext hdelays
  | delayWill ref will _ _ _ =>
      refine ⟨Nat.le_succ _, Nat.le_refl _, fun token htoken => ?_⟩
      rcases htoken with hne | heq
      · exact congrArg Delay.waiting (Function.update_of_ne hne _ _)
      · exact absurd heq (Nat.succ_ne_self _)
  | adopt x ref =>
      obtain ⟨-, hnext, hdelays, -⟩ := adopt_same sh x ref
      refine ⟨hnext.ge, hnext.le.trans (Nat.le_succ _), fun token _ => ?_⟩
      rw [← waiting_cancel sh (sh.sessions ref).pendingWill, ← hdelays]
  | setPendingWill ref token _ =>
      have hnext : (sh.cancel (sh.sessions ref).pendingWill).nextToken = sh.nextToken := by
        cases (sh.sessions ref).pendingWill <;> rfl
      exact ⟨hnext.ge, hnext.le.trans (Nat.le_succ _), fun token' _ => waiting_cancel _ _ token'⟩
  | _ => exact hsame _ rfl rfl

/-- Only `route_publish` goes on to the lock of the pool. -/
theorem inPool_of_performed (h : Performed sh t c a sh' next) (ha : a.inPool = false) :
    (∀ x ∈ next.more, x.inPool = false) ∨ ∃ publish sender,
      ∃ subscribers : List Subscriber, a = .route publish sender ∧
        next = .go (.lockPool :: subscribers.map (.deliver publish sender) ++ [.leavePool]) := by
  cases h with
  | route publish sender subscribers _ => exact .inr ⟨publish, sender, subscribers, rfl, rfl⟩
  | lockPool | leavePool | deliver => cases ha
  | enter x _ _ =>
      left
      intro y hy
      cases List.mem_singleton.mp hy
      have hholds := (choose_locks sh x).2.2.2
      cases hchoose : (sh.choose x).2 with
      | lockPool | leavePool | deliver => rw [hchoose] at hholds; cases hholds
      | _ => rfl
  | openSession ref _ _ =>
      left
      intro y hy
      rcases List.mem_append.mp hy with hy | hy
      · obtain ⟨⟨packetId, publish⟩, -, hy⟩ := List.mem_flatMap.mp hy
        simp only [List.mem_cons, List.not_mem_nil, or_false] at hy
        rcases hy with rfl | rfl <;> rfl
      · cases List.mem_singleton.mp hy
        rfl
  | _ => left; simp [Next.more, Action.inPool]

/-- Under the write lock an action goes on to the next one, up to the one that releases it. -/
theorem holds_of_performed (h : Performed sh t c a sh' next) (ha : a.holds.isSome = true) :
    sh'.poolWriter = none ∨ ∃ x, next = .go [x] ∧ x.holds.isSome = true := by
  cases h with
  | register x => exact .inl rfl
  | adopt x ref => exact .inl rfl
  | lockOld | oldClosed | oldSent | settle => exact .inr ⟨_, rfl, rfl⟩
  | _ => cases ha

theorem inPool_of_handlePacket {ref : Ref} {p : Packet} {todo : List Action}
    (h : sh.handlePacket ref p = some todo) : ∀ x ∈ todo, x.inPool = false := by
  cases p with
  | publish p =>
      simp only [handlePacket, handlePublish] at h
      split at h
      · split at h <;> cases h <;> simp [Action.inPool]
      · cases h
        simp [Action.inPool]
      · cases h
  | disconnect d =>
      simp only [handlePacket] at h
      split at h <;> cases h <;> simp [ending, Action.inPool]
  | _ =>
      cases h
      simp [Action.inPool]

theorem inPool_of_arises {task : Task} {e : Event} {todo : List Action}
    (h : Arises sh task e todo) : ∀ x ∈ todo, x.inPool = false := by
  have hending : ∀ client : Option Ref, ∀ x ∈ (client.map sh.ending).getD [], x.inPool = false := by
    intro client
    cases client <;> simp [ending, Action.inPool]
  cases h with
  | control msg _ =>
      cases msg with
      | deliver publish => simp [handleControl, Action.inPool]
      | disconnect reason =>
          unfold handleControl
          cases task.clientSession with
          | none => simp [Action.inPool]
          | some ref =>
              simp only
              split <;> simp [Action.inPool]
  | timeout ref _ => simp [ending, Action.inPool]
  | idle _ => simp [Action.inPool]
  | packet p ref _ _ _ htodo => exact inPool_of_handlePacket htodo
  | ignored _ _ _ => exact List.forall_mem_nil _
  | preConnect p _ =>
      unfold handlePreConnect
      cases p with
      | connect connect => simp only; split <;> simp [Action.inPool]
      | _ => simp [Action.inPool]
  | endOfStream =>
      intro x hx
      rcases List.mem_append.mp hx with hx | hx
      · exact hending _ x hx
      · cases List.mem_singleton.mp hx
        rfl
  | readError =>
      intro x hx
      rcases List.mem_append.mp hx with hx | hx
      · exact hending _ x hx
      · cases List.mem_singleton.mp hx
        rfl

end

end Shared

/-! ## Steps -/

section

variable {s s' : State} {t : TaskId} {c : Choice}

theorem not_reading_nil : ¬ Reading [] := by
  rintro ⟨delivers, rest, heq, -, -⟩
  simp at heq

theorem Reading.outside_leave {rest : List Action} (h : Reading (.leavePool :: rest)) : Outside rest := by
  obtain ⟨delivers, rest', heq, hdelivers, hrest⟩ := h
  cases delivers with
  | nil =>
      cases heq
      exact .inr hrest
  | cons x delivers =>
      cases heq
      cases hdelivers _ List.mem_cons_self

theorem Reading.cases {a : Action} {rest : List Action} (h : Reading (a :: rest)) :
    a = .leavePool ∨ a.delivers = true ∧ Reading rest := by
  obtain ⟨delivers, rest', heq, hdelivers, hrest⟩ := h
  cases delivers with
  | nil =>
      cases heq
      exact .inl rfl
  | cons x delivers =>
      cases heq
      obtain ⟨hx, hdelivers⟩ := List.forall_mem_cons.mp hdelivers
      exact .inr ⟨hx, delivers, rest', rfl, hdelivers, hrest⟩

/-- The task that acts is reading afterwards or it is not, as the readers say. -/
theorem Locked.todo_act (hl : Locked s) {a : Action} {rest : List Action} {sh : Shared} {next : Next}
    (htodo : (s.tasks t).todo = a :: rest)
    (hperformed : Shared.Performed s.shared t c a sh next) :
    (t ∈ sh.poolReaders → Reading ((s.tasks t).after rest next).todo) ∧
      (t ∉ sh.poolReaders → Outside ((s.tasks t).after rest next).todo) := by
  by_cases ht : t ∈ s.shared.poolReaders
  · have hreading := hl.reading t ht
    rw [htodo] at hreading
    rcases hreading.cases with rfl | ⟨ha, hrest⟩
    · cases hperformed
      refine ⟨fun hmem => ?_, fun _ => hreading.outside_leave⟩
      exact absurd hmem hl.nodup.not_mem_erase
    · cases a with
      | deliver publish sender sub =>
          have hreaders := Shared.poolReaders_of_performed hperformed (by simp) (by simp)
          cases hperformed
          exact ⟨fun _ => hrest, fun hnot => absurd (hreaders ▸ ht) hnot⟩
      | _ => cases ha
  · have houtside := hl.outside t ht
    rw [htodo] at houtside
    rcases houtside with ⟨todo', heq, hreading⟩ | hplain
    · cases heq
      cases hperformed
      exact ⟨fun _ => hreading, fun hnot => absurd List.mem_cons_self hnot⟩
    · obtain ⟨ha, hrest⟩ := List.forall_mem_cons.mp hplain
      have hreaders := Shared.poolReaders_of_performed hperformed (by rintro rfl; cases ha)
        (by rintro rfl; cases ha)
      refine ⟨fun hmem => absurd (hreaders ▸ hmem) ht, fun _ => ?_⟩
      rcases Shared.inPool_of_performed hperformed ha with hmore | ⟨publish, sender, subs, -, rfl⟩
      · refine .inr fun x hx => ?_
        rcases mem_todo_after hx with hx | hx
        · exact hmore x hx
        · exact hrest x hx
      · refine .inl ⟨_, rfl, subs.map (.deliver publish sender), rest, by simp, ?_, hrest⟩
        intro x hx
        obtain ⟨sub, -, rfl⟩ := List.mem_map.mp hx
        rfl

theorem Shared.afterNext_same (sh : Shared) (task : Task) (next : Next) :
    (sh.afterNext task next).poolWriter = sh.poolWriter ∧
      (sh.afterNext task next).poolReaders = sh.poolReaders ∧
      (sh.afterNext task next).delays = sh.delays ∧
      (sh.afterNext task next).nextToken = sh.nextToken ∧
      (sh.afterNext task next).tree = sh.tree := by
  cases next with
  | returned result => cases hcontrol : task.sessionControl <;> simp [afterNext, close, hcontrol, setChannel]
  | _ => exact ⟨rfl, rfl, rfl, rfl, rfl⟩

theorem Locked.act (hl : Locked s) (inv : Inv s) {a : Action} {rest : List Action} {sh : Shared}
    {next : Next} (h : Acted s t c s' a rest sh next) : Locked s' := by
  obtain ⟨htodo, -, hperformed, hshared, hself, hothers, -⟩ := h
  obtain ⟨hwriter', hreaders', hdelays', hnext', -⟩ := Shared.afterNext_same sh (s.tasks t) next
  rw [← hshared] at hwriter' hreaders' hdelays' hnext'
  have hmem : ∀ t', t' ≠ t → (t' ∈ sh.poolReaders ↔ t' ∈ s.shared.poolReaders) := by
    intro t' ht'
    by_cases hlock : a = .lockPool
    · subst hlock
      cases hperformed
      exact List.mem_cons.trans (or_iff_right ht')
    · by_cases hleave : a = .leavePool
      · subst hleave
        cases hperformed
        exact List.mem_erase_of_ne ht'
      · rw [Shared.poolReaders_of_performed hperformed hlock hleave]
  obtain ⟨hreading, houtside⟩ := hl.todo_act htodo hperformed
  refine ⟨fun t' ht' => ?_, fun hsome => ?_, ?_, fun t' ht' => ?_, fun t' ht' => ?_,
    fun token htoken => ?_⟩
  · rw [hwriter'] at ht'
    rcases Shared.poolWriter_of_performed hperformed with
      hsame | ⟨x, -, hset, rfl, rfl⟩ | ⟨hnone, -⟩
    · rw [hsame] at ht'
      obtain ⟨x, hx, hholds⟩ := hl.writer t' ht'
      by_cases hne : t' = t
      · subst hne
        rw [htodo] at hx
        cases hx
        rcases Shared.holds_of_performed hperformed hholds with hnone | ⟨y, rfl, hy⟩
        · rw [hsame, ht'] at hnone
          cases hnone
        · exact ⟨y, by rw [hself]; rfl, hy⟩
      · exact ⟨x, by rw [hothers t' hne]; exact hx, hholds⟩
    · obtain rfl : t = t' := Option.some.inj (hset.symm.trans ht')
      have hsingle := ((inv.task t).connecting _ (htodo ▸ List.mem_cons_self) rfl).1
      rw [htodo] at hsingle
      obtain rfl : rest = [] := (List.cons.inj hsingle).2
      exact ⟨_, by rw [hself]; rfl, (Shared.choose_locks s.shared x).2.2.2⟩
    · rw [hnone] at ht'
      cases ht'
  · rw [hwriter'] at hsome
    rw [hreaders']
    by_cases hlock : a = .lockPool
    · subst hlock
      cases hperformed with
      | lockPool hfree => exact absurd hfree hsome
    · by_cases hleave : a = .leavePool
      · subst hleave
        cases hperformed
        rw [hl.exclusive hsome]
        rfl
      · rw [Shared.poolReaders_of_performed hperformed hlock hleave]
        rcases Shared.poolWriter_of_performed hperformed with hsame | ⟨x, hfree, -⟩ | ⟨hnone, -⟩
        · exact hl.exclusive (hsame ▸ hsome)
        · exact (List.isEmpty_iff.mp (Bool.and_eq_true _ _ ▸ hfree).2)
        · exact absurd hnone hsome
  · rw [hreaders']
    by_cases hlock : a = .lockPool
    · subst hlock
      cases hperformed
      refine List.nodup_cons.mpr ⟨fun hmem => ?_, hl.nodup⟩
      have hreading := hl.reading t hmem
      rw [htodo] at hreading
      rcases hreading.cases with heq | ⟨hdelivers, -⟩
      · cases heq
      · cases hdelivers
    · by_cases hleave : a = .leavePool
      · subst hleave
        cases hperformed
        exact hl.nodup.erase t
      · rw [Shared.poolReaders_of_performed hperformed hlock hleave]
        exact hl.nodup
  · rw [hreaders'] at ht'
    by_cases hne : t' = t
    · subst hne
      rw [hself]
      exact hreading ht'
    · rw [hothers t' hne]
      exact hl.reading t' ((hmem t' hne).mp ht')
  · rw [hreaders'] at ht'
    by_cases hne : t' = t
    · subst hne
      rw [hself]
      exact houtside ht'
    · rw [hothers t' hne]
      exact hl.outside t' (mt (hmem t' hne).mpr ht')
  · rw [hnext', hdelays'] at htoken
    obtain ⟨hle, hle', hwaiting⟩ := Shared.waiting_of_performed hperformed
    have hbefore : (s.tasks (.delay token)).todo = [] := by
      refine hl.timer token ?_
      by_cases hlt : token < s.shared.nextToken
      · rw [hwaiting token (.inl (Nat.ne_of_lt hlt))] at htoken
        exact .inr (htoken.resolve_left (Nat.not_le.mpr (Nat.lt_of_lt_of_le hlt hle)))
      · exact .inl (Nat.not_lt.mp hlt)
    rw [hothers _ (by rintro rfl; rw [htodo] at hbefore; cases hbefore)]
    exact hbefore

theorem Locked.event (hl : Locked s) {e : Event} {todo : List Action} (h : Handled s t e s' todo)
    (ht : ∀ token, t ≠ .delay token) : Locked s' := by
  obtain ⟨hready, -, hhandle, hself, hothers, -⟩ := h
  have hsame : s'.shared.poolWriter = s.shared.poolWriter ∧
      s'.shared.poolReaders = s.shared.poolReaders ∧ s'.shared.delays = s.shared.delays ∧
      s'.shared.nextToken = s.shared.nextToken := by
    rcases Shared.handle_shared hhandle with heq | ⟨ch, msg, queue, -, -, -, heq⟩
    · rw [heq]
      exact ⟨rfl, rfl, rfl, rfl⟩
    · rw [heq]
      exact ⟨rfl, rfl, rfl, rfl⟩
  obtain ⟨hwriter, hreaders, hdelays, hnext⟩ := hsame
  have hnot : t ∉ s.shared.poolReaders := by
    intro hmem
    have hreading := hl.reading t hmem
    rw [hready] at hreading
    exact not_reading_nil hreading
  refine ⟨fun t' ht' => ?_, ?_, ?_, fun t' ht' => ?_, fun t' ht' => ?_, fun token htoken => ?_⟩
  · rw [hwriter] at ht'
    obtain ⟨x, hx, hholds⟩ := hl.writer t' ht'
    have hne : t' ≠ t := by
      rintro rfl
      rw [hready] at hx
      cases hx
    exact ⟨x, by rw [hothers t' hne]; exact hx, hholds⟩
  · rw [hwriter, hreaders]
    exact hl.exclusive
  · rw [hreaders]
    exact hl.nodup
  · rw [hreaders] at ht'
    rw [hothers t' (by rintro rfl; exact hnot ht')]
    exact hl.reading t' ht'
  · rw [hreaders] at ht'
    by_cases hne : t' = t
    · subst hne
      rw [hself]
      exact .inr (Shared.inPool_of_arises (Shared.arises_of_handle hhandle))
    · rw [hothers t' hne]
      exact hl.outside t' ht'
  · rw [hnext, hdelays] at htoken
    rw [hothers _ (ht token).symm]
    exact hl.timer token htoken

theorem Locked.fire (hl : Locked s) {token : Token} (h : Fired s token s') : Locked s' := by
  obtain ⟨hknown, hwaiting, -, hshared, hself, hothers, -⟩ := h
  have hidle := hl.timer token (.inr hwaiting)
  have hnot : .delay token ∉ s.shared.poolReaders := by
    intro hmem
    have hreading := hl.reading _ hmem
    rw [hidle] at hreading
    exact not_reading_nil hreading
  refine ⟨fun t' ht' => ?_, ?_, ?_, fun t' ht' => ?_, fun t' ht' => ?_, fun token' htoken => ?_⟩
  · rw [hshared] at ht'
    obtain ⟨x, hx, hholds⟩ := hl.writer t' ht'
    have hne : t' ≠ .delay token := by
      rintro rfl
      rw [hidle] at hx
      cases hx
    exact ⟨x, by rw [hothers t' hne]; exact hx, hholds⟩
  · rw [hshared]
    exact hl.exclusive
  · rw [hshared]
    exact hl.nodup
  · rw [hshared] at ht'
    rw [hothers t' (by rintro rfl; exact hnot ht')]
    exact hl.reading t' ht'
  · rw [hshared] at ht'
    by_cases hne : t' = .delay token
    · subst hne
      rw [hself]
      exact .inr (by simp [Action.inPool])
    · rw [hothers t' hne]
      exact hl.outside t' ht'
  · rw [hshared] at htoken
    by_cases hne : token' = token
    · subst hne
      simp only [Function.update_self, Bool.false_eq_true, or_false] at htoken
      exact absurd hknown (Nat.not_lt.mpr htoken)
    · simp only [Function.update_of_ne hne] at htoken
      rw [hothers _ (by simpa using hne)]
      exact hl.timer token' htoken

theorem Locked.step (hl : Locked s) (inv : Inv s) {l : Label} (hstep : s.step l = some s') :
    Locked s' := by
  rcases step_cases hstep with ⟨n, e, todo, -, h⟩ | ⟨t, c, a, rest, sh, next, -, h⟩ |
    ⟨token, -, h⟩ | ⟨accept, -, rfl⟩ | ⟨secs, -, -, rfl⟩
  · exact hl.event h (fun token => by simp)
  · exact hl.act inv h
  · exact hl.fire h
  · exact ⟨hl.writer, hl.exclusive, hl.nodup, hl.reading, hl.outside, hl.timer⟩
  · exact ⟨hl.writer, hl.exclusive, hl.nodup, hl.reading, hl.outside, hl.timer⟩

end

theorem locked_of_run {config : Config} {ls : List Label} {s : State}
    (hrun : run State.step (.start config) ls = some s) : Inv s ∧ Locked s :=
  invariant (I := fun s => Inv s ∧ Locked s) (fun _ _ _ h hstep => ⟨h.1.step hstep, h.2.step h.1 hstep⟩)
    ⟨inv_start config, locked_start config⟩ hrun

end Broker
end Vaux
