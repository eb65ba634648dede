import Liaison.Proofs.Session.Placement
import Liaison.Proofs.Session.Ordinary

/-!
# Dispatching

One task looks at what the server says on its own, and nobody else does. Every message gives it an agenda, and it
has done with that before it looks at the next one.
-/

namespace Liaison

/-! ## What messages ask for -/

namespace Inbound

def reply? (rootUri : Option String) : Inbound → Option Message
  | request id method params => some (answerTo rootUri id method params)
  | _ => none

/-- What the message says to those who asked for its method. -/
def notice? : Inbound → Option (String × Json)
  | notification method params => some (method, params.getD .null)
  | _ => none

/-- The diagnostics that the message brings, if they can be read. -/
def push? : Inbound → Option Push
  | notification method params =>
    if method = "textDocument/publishDiagnostics" then (Push.decode (params.getD .null)).toOption else none
  | _ => none

end Inbound

def Push.withNumber (push : Push) (n : Nat) : DiagnosticSet :=
  ⟨push.uri, push.diagnostics, ⟨push.version, n⟩⟩

def numbered (n : Nat) : List Push → List DiagnosticSet
  | [] => []
  | push :: rest => push.withNumber (n + 1) :: numbered (n + 1) rest

/-! ## Agendas -/

def Meaning.push? : Meaning → Option Push
  | diagnostics push => some push
  | _ => none

def Meaning.agenda (n : Nat) : Meaning → List Action
  | diagnostics push => [.publish (push.withNumber (n + 1))]
  | unreadable => [.count .decodeError]
  | log entry => [.log entry]
  | unknown => []

def Inbound.agenda (rootUri : Option String) (n : Nat) : Inbound → List Action
  | notification method params =>
    .count .notification :: ((Meaning.of method (params.getD .null)).agenda n ++ [.present method (params.getD .null)])
  | request id method params => [.count .request, .spawn (.answering (answerTo rootUri id method params))]
  | undecodable _ => [.count .decodeError]

def Inbound.next (n : Nat) (i : Inbound) : Nat :=
  n + i.push?.toList.length

def script (rootUri : Option String) (n : Nat) : List Inbound → List Action
  | [] => []
  | i :: rest => i.agenda rootUri n ++ script rootUri (i.next n) rest

namespace Action

def isOnAgenda : Action → Bool
  | count _ | log _ | present _ _ | publish _ | spawn _ => true
  | _ => false

def reply? : Action → Option Message
  | spawn (.answering m) => some m
  | _ => none

def notice? : Action → Option (String × Json)
  | present method params => some (method, params)
  | _ => none

def push? : Action → Option DiagnosticSet
  | publish set => some set
  | _ => none

end Action

def actions (h : History) : List Action :=
  h.map Deed.action

theorem actions_concat (h : History) (d : Deed) : actions (h ++ [d]) = actions h ++ [d.action] :=
  List.map_append

section

variable {rootUri : Option String} {n : Nat}

theorem isOnAgenda_of_mem {a : Action} {i : Inbound} (h : a ∈ i.agenda rootUri n) : a.isOnAgenda = true := by
  cases i with
  | notification method params =>
    simp only [Inbound.agenda, List.mem_cons, List.mem_append, List.not_mem_nil, or_false] at h
    rcases h with rfl | h | rfl
    · rfl
    · cases hm : Meaning.of method (params.getD .null) <;> simp [hm, Meaning.agenda] at h <;> subst h <;> rfl
    · rfl
  | request id method params =>
    simp only [Inbound.agenda, List.mem_cons, List.not_mem_nil, or_false] at h
    rcases h with rfl | rfl <;> rfl
  | undecodable reason =>
    rw [List.mem_singleton.mp h]
    rfl

theorem filterMap_agenda_reply (i : Inbound) :
    (i.agenda rootUri n).filterMap Action.reply? = (i.reply? rootUri).toList := by
  cases i with
  | notification method params =>
    simp only [Inbound.agenda]
    cases Meaning.of method (params.getD .null) <;> rfl
  | _ => rfl

theorem filterMap_agenda_notice (i : Inbound) :
    (i.agenda rootUri n).filterMap Action.notice? = i.notice?.toList := by
  cases i with
  | notification method params =>
    simp only [Inbound.agenda]
    cases Meaning.of method (params.getD .null) <;> rfl
  | _ => rfl

theorem Inbound.push?_notification (method : String) (params : Option Json) :
    (notification method params).push? = (Meaning.of method (params.getD .null)).push? := by
  by_cases hm : method = "textDocument/publishDiagnostics"
  · simp only [push?, Meaning.of, if_pos hm]
    cases Push.decode (params.getD .null) <;> rfl
  · simp only [push?, Meaning.of, if_neg hm]
    split_ifs <;> rfl

theorem filterMap_agenda_push (i : Inbound) :
    (i.agenda rootUri n).filterMap Action.push? = numbered n i.push?.toList := by
  cases i with
  | notification method params =>
    simp only [Inbound.agenda, Inbound.push?_notification]
    cases Meaning.of method (params.getD .null) <;> rfl
  | _ => rfl

theorem numbered_append (first later : List Push) :
    numbered n (first ++ later) = numbered n first ++ numbered (n + first.length) later := by
  induction first generalizing n with
  | nil => rfl
  | cons push rest ih => simp [numbered, ih, Nat.add_comm, Nat.add_left_comm]

theorem script_concat (messages : List Inbound) (i : Inbound) : script rootUri n (messages ++ [i]) =
    script rootUri n messages ++ i.agenda rootUri (n + (messages.filterMap Inbound.push?).length) := by
  induction messages generalizing n with
  | nil => simp [script]
  | cons j rest ih =>
    rw [List.cons_append, script, ih, script, List.append_assoc]
    cases hj : j.push? <;> simp [Inbound.next, hj, Nat.add_assoc, Nat.add_comm 1]

theorem filterMap_script {β : Type} {f : Action → Option β} {g : Inbound → Option β}
    (h : ∀ n i, (i.agenda rootUri n).filterMap f = (g i).toList) (messages : List Inbound) :
    (script rootUri n messages).filterMap f = messages.filterMap g := by
  induction messages generalizing n with
  | nil => rfl
  | cons i rest ih =>
    rw [script, List.filterMap_append, h, ih]
    cases hi : g i <;> simp [hi]

theorem filterMap_script_push (messages : List Inbound) :
    (script rootUri n messages).filterMap Action.push? = numbered n (messages.filterMap Inbound.push?) := by
  induction messages generalizing n with
  | nil => rfl
  | cons i rest ih =>
    rw [script, List.filterMap_append, filterMap_agenda_push, ih, Inbound.next, ← numbered_append]
    cases hi : i.push? <;> simp [hi]

end

/-! ## The rules of dispatching -/

inductive Dispatching where
  | idle (rootUri : Option String) (n : Nat)
  | busy (rootUri : Option String) (n : Nat) (agenda : List Action)
  | noticing (rootUri : Option String) (n : Nat) (agenda : List Action)
  | elsewhere

namespace Dispatching

def Allows : Dispatching → Action → Prop
  | idle _ _, a => a = .nextInbound
  | busy _ _ agenda, a => agenda.head? = some a ∧ ∀ phase, a = .spawn phase → phase.service? ≠ some .dispatcher
  | noticing _ _ _, a => a = .giveNotice
  | elsewhere, a => a.service? ≠ some .dispatcher ∧ ∀ phase, a ≠ .spawn phase

def after : Dispatching → (a : Action) → a.Answer → Dispatching
  | idle rootUri n, .nextInbound, i => busy rootUri (i.next n) (i.agenda rootUri n)
  | busy rootUri n agenda, .publish _, true => noticing rootUri n agenda.tail
  | busy rootUri n agenda, _, _ => busy rootUri n agenda.tail
  | noticing rootUri n agenda, _, _ => busy rootUri n agenda
  | place, _, _ => place

def Fits : Next → Dispatching → Prop
  | .finish _, place => place = elsewhere
  | .resume phase, place =>
    (∃ rootUri n, place = busy rootUri n [] ∧ phase = .dispatching rootUri n) ∨
      place = elsewhere ∧ phase.service? ≠ some .dispatcher

def ofPhase : Phase → Dispatching
  | .dispatching rootUri n => idle rootUri n
  | _ => elsewhere

def rules : Rules Dispatching :=
  ⟨Allows, after⟩

/-! ## Keeping to them -/

theorem tolerates_elsewhere {a : Action} (hs : a.service? ≠ some .dispatcher) (hp : ∀ phase, a ≠ .spawn phase) :
    rules.Tolerates elsewhere a :=
  ⟨⟨hs, hp⟩, fun _ => rfl⟩

theorem isEasy_elsewhere : rules.IsEasy elsewhere := by
  intro a ha
  have hs : a.service? = none := by
    cases a <;> first | rfl | cases ha
  apply tolerates_elsewhere
  · simp [hs]
  · rintro phase rfl
    cases ha

theorem serves_elsewhere {service : Service} (hs : service ≠ .dispatcher) : rules.Serves elsewhere service := by
  intro a ha
  apply tolerates_elsewhere
  · simpa [ha] using hs
  · rintro phase rfl
    cases ha

theorem ends_elsewhere : rules.Ends elsewhere where
  enqueueClose := tolerates_elsewhere (by simp [Action.service?]) (by simp)
  closeCalls _ := tolerates_elsewhere (by simp [Action.service?]) (by simp)
  terminate := tolerates_elsewhere (by simp [Action.service?]) (by simp)
  kill := tolerates_elsewhere (by simp [Action.service?]) (by simp)

theorem speaks_elsewhere (method : String) : rules.Speaks elsewhere method where
  request _ _ := tolerates_elsewhere (by simp [Action.service?]) (by simp)
  notification _ := tolerates_elsewhere (by simp [Action.service?]) (by simp)

theorem keeps_of_stays {service : Option Service} {r : Routine Next} (hs : service ≠ some .dispatcher)
    (h : rules.Stays elsewhere service r) : r.Keeps rules elsewhere Fits :=
  h.keeps (fun _ => rfl) fun _ hp _ => .inr ⟨rfl, hp ▸ hs⟩

theorem keeps_operation (o : ClientOptions) (op : Operation) : (op.routine o).Keeps rules elsewhere Fits :=
  keeps_of_stays (by simp) (stays_any_operation isEasy_elsewhere ends_elsewhere speaks_elsewhere
    (fun _ _ => tolerates_elsewhere (by simp [Action.service?]) (by simp)) o op)

theorem keeps_heed (rootUri : Option String) (n next : Nat) (meaning : Meaning) (rest : List Action) :
    (heed n meaning).Keeps rules (busy rootUri next (meaning.agenda n ++ rest)) fun last place =>
      last = n + meaning.push?.toList.length ∧ place = busy rootUri next rest := by
  cases meaning with
  | diagnostics push =>
    refine ⟨⟨rfl, by simp⟩, fun isNew : Bool => ?_⟩
    cases isNew with
    | true => exact ⟨rfl, fun _ => ⟨rfl, rfl⟩⟩
    | false => exact ⟨rfl, rfl⟩
  | unreadable => exact ⟨⟨rfl, by simp⟩, fun _ => ⟨rfl, rfl⟩⟩
  | log entry => exact ⟨⟨rfl, by simp⟩, fun _ => ⟨rfl, rfl⟩⟩
  | unknown => exact ⟨rfl, rfl⟩

theorem keeps_consider (rootUri : Option String) (n : Nat) (i : Inbound) :
    (consider rootUri n i).Keeps rules (busy rootUri (i.next n) (i.agenda rootUri n)) fun last place =>
      last = i.next n ∧ place = busy rootUri (i.next n) [] := by
  cases i with
  | notification method params =>
    simp only [Inbound.next, Inbound.agenda, Inbound.push?_notification]
    have hheed := keeps_heed rootUri n (n + (Meaning.of method (params.getD .null)).push?.toList.length)
      (.of method (params.getD .null)) [.present method (params.getD .null)]
    refine Routine.keeps_bind.mpr ⟨⟨rfl, by simp⟩, fun _ => Routine.keeps_bind.mpr (hheed.mono ?_)⟩
    rintro last _ ⟨rfl, rfl⟩
    exact ⟨⟨rfl, by simp⟩, fun _ => ⟨rfl, rfl⟩⟩
  | request id method params =>
    exact ⟨⟨rfl, by simp⟩, fun _ => ⟨⟨rfl, by simp [Phase.service?]⟩, fun _ => ⟨rfl, rfl⟩⟩⟩
  | undecodable reason => exact ⟨⟨rfl, by simp⟩, fun _ => ⟨rfl, rfl⟩⟩

theorem keeps_dispatching (rootUri : Option String) (n : Nat) :
    (dispatching rootUri n).Keeps rules (idle rootUri n) Fits := by
  refine Routine.keeps_bind.mpr ⟨rfl, fun i => Routine.keeps_bind.mpr ((keeps_consider rootUri n i).mono ?_)⟩
  rintro last _ ⟨rfl, rfl⟩
  exact .inl ⟨rootUri, _, rfl, rfl⟩

theorem ofPhase_eq_elsewhere {p : Phase} (hp : p.service? ≠ some .dispatcher) : ofPhase p = elsewhere := by
  cases p with
  | dispatching rootUri n => exact absurd rfl hp
  | _ => rfl

theorem keeps_phase (p : Phase) : p.routine.Keeps rules (ofPhase p) Fits := by
  have hplain : rules.IsPlain elsewhere := isEasy_elsewhere.isPlain
  cases p with
  | writing => exact keeps_of_stays (by simp) (stays_writing (serves_elsewhere (by simp)) ends_elsewhere)
  | reading => exact keeps_of_stays (by simp) (stays_reading (serves_elsewhere (by simp)) ends_elsewhere)
  | dispatching rootUri n => exact keeps_dispatching rootUri n
  | watching => exact keeps_of_stays (by simp) (stays_watching (serves_elsewhere (by simp)) ends_elsewhere)
  | answering m =>
    have hm : rules.Tolerates elsewhere (.enqueue m.toJson) := tolerates_elsewhere (by simp [Action.service?]) (by simp)
    exact keeps_of_stays (by simp) (stays_answering hplain hm)
  | awaitingDiagnostics uri after seen limit =>
    exact keeps_of_stays (by simp) (stays_awaitingDiagnostics hplain uri after seen limit)

def placement : Placement rules where
  Admits _ := True
  operation _ := elsewhere
  phase := ofPhase
  Fits := Fits
  keeps_operation o op _ := keeps_operation o op
  keeps_phase := keeps_phase

theorem excludes : placement.Excludes 2 elsewhere where
  operation _ := rfl
  after _ _ _ := rfl
  spawn place phase ha := by
    cases place with
    | busy rootUri n agenda => exact ofPhase_eq_elsewhere (ha.2 phase rfl)
    | elsewhere => exact absurd rfl (ha.2 phase)
    | _ => cases ha
  resume _ hf := by
    rcases hf with ⟨_, _, he, -⟩ | ⟨-, hp⟩
    · cases he
    · exact ofPhase_eq_elsewhere hp

end Dispatching

end Liaison
