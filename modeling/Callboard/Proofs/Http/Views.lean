import Callboard.Proofs.Http.Run
import Callboard.Proofs.Invocation.RoundTrip
import Callboard.Proofs.Registry.Book

/-!
# Views of the tasks

The tasks are listed for clients, described to them one by one and counted, and they are
looked up for every target. After any registrations all of this shows the same tasks: every
name at the place of its first registration, with the description of its last.
-/

set_option autoImplicit false

namespace Callboard

open Text

namespace Registry

variable {η : Type}

def listed (h : List (Descriptor η)) : List TaskInfo :=
  (standing h).map fun t => ⟨t.name, t.description⟩

theorem mem_of_mem_standing {h : List (Descriptor η)} {t : Descriptor η} (ht : t ∈ standing h) :
    t ∈ h := by
  obtain ⟨name, -, hlast⟩ := List.mem_filterMap.mp ht
  exact (List.mem_filter.mp (List.mem_of_getLast? hlast)).1

theorem names_listed (h : List (Descriptor η)) : (listed h).map TaskInfo.name = firsts h := by
  have hrecords := (Book.keeps_ofTable h).records
  rw [← hrecords.names, names, hrecords.tasks_eq, listed, List.map_map]
  rfl

theorem last?_listed {h : List (Descriptor η)} {i : TaskInfo} (hi : i ∈ listed h) :
    ∃ t, last? h i.name = some t ∧ t.name = i.name ∧ t.description = i.description := by
  have hrecords := (Book.keeps_ofTable h).records
  obtain ⟨t, ht, rfl⟩ := List.mem_map.mp hi
  rw [← hrecords.tasks_eq] at ht
  refine ⟨t, ?_, rfl, rfl⟩
  rw [← hrecords.lookup]
  exact lookup_of_mem hrecords.nodup ht

theorem last?_unlisted {h : List (Descriptor η)} {name : Text} :
    last? h name = none ↔ name ∉ (listed h).map TaskInfo.name := by
  rw [last?_eq_none_iff, names_listed, mem_firsts]

theorem listed_clear {h : List (Descriptor η)}
    (hclear : ∀ t ∈ h, Sendable t.name ∧ Sendable t.description) :
    ∀ i ∈ listed h, Sendable i.name ∧ Sendable i.description := by
  intro i hi
  obtain ⟨t, ht, rfl⟩ := List.mem_map.mp hi
  exact hclear t (mem_of_mem_standing ht)

end Registry

namespace Http

def IsSegment (name : Text) : Prop := name ≠ [] ∧ slash ∉ name

theorem Route.taskOf?_segment {name : Text} (h : IsSegment name) :
    taskOf? (taskPath ++ name) = some name := by
  have hempty : name.isEmpty = false := by simpa using h.1
  have hslash : name.contains slash = false := by simpa using h.2
  rw [taskOf?, after?_append]
  simp only [hempty, hslash, Bool.or_self, Bool.false_eq_true, if_false]

/-- The path of a task is tried before the path that targets are run at. -/
theorem Route.decide_task {name : Text} (h : IsSegment name) :
    decide .get (taskPath ++ name) = .answer (.task name) := by
  have hhealth : isPath healthPath (taskPath ++ name) = false := rfl
  have hready : isPath readyPath (taskPath ++ name) = false := rfl
  have htasks : isPath tasksPath (taskPath ++ name) = false := rfl
  rw [decide, fitting, hhealth, hready, htasks, taskOf?_segment h]
  rfl

namespace App

def taskObject (i : TaskInfo) : Value :=
  .record [(chars "name", .text i.name), (chars "description", .text i.description)]

theorem task_wordy {n : Nat} (i : TaskInfo) : Wordy (n + 1) (taskObject i) :=
  .of_keys [chars "name", chars "description"] rfl (by decide) (by decide) (by simp [Wordy.text])

theorem task_clear {i : TaskInfo} (h : Sendable i.name ∧ Sendable i.description) :
    unencodableIn? (taskObject i) = none := by
  rw [taskObject, clear_record]
  simp [clear_text, h]

theorem tasks_wordy (infos : List TaskInfo) :
    Wordy Body.nestingLimit (.list (infos.map taskObject)) := by
  refine Wordy.list (n := 961) fun v hv => ?_
  obtain ⟨i, -, rfl⟩ := List.mem_map.mp hv
  exact task_wordy i

theorem tasks_clear {infos : List TaskInfo}
    (h : ∀ i ∈ infos, Sendable i.name ∧ Sendable i.description) :
    unencodableIn? (.list (infos.map taskObject)) = none := by
  rw [clear_list]
  intro v hv
  obtain ⟨i, hi, rfl⟩ := List.mem_map.mp hv
  exact task_clear (h i hi)

theorem absence_carried {timestamp : Text} (htime : Sendable timestamp) {name : Text}
    (hname : Sendable name) : ∃ body, Carries body (absenceObject timestamp name) :=
  Wordy.carried (bareObject_wordy _ _ _ _ _ _ _) (absence_clear htime hname)

def unreadiness : Value :=
  .record [(chars "status", .text (chars "not_ready")),
    (chars "reason", .text (chars "no_tasks_registered"))]

def census (n : Nat) : Value :=
  .record [(chars "status", .text (chars "ready")),
    (chars "checks", .record [(chars "tasks", .int n)])]

theorem unreadiness_carried : ∃ body, Carries body unreadiness := by
  have hwordy : Wordy Body.nestingLimit unreadiness :=
    .of_keys (n := 961) [chars "status", chars "reason"] rfl (by decide) (by decide)
      (by simp [Wordy.text])
  exact hwordy.carried (by decide)

theorem census_carried {n : Nat} (h : n < 10 ^ integerDigitLimit) :
    ∃ body, Carries body (census n) := by
  have hcount : Wordy 960 (.int n) := .int (by rwa [Int.natAbs_natCast])
  have hchecks : Wordy 961 (.record [(chars "tasks", .int n)]) :=
    .of_keys [chars "tasks"] rfl (by decide) (by decide) (by simpa using hcount)
  have hcensus : Wordy Body.nestingLimit (census n) :=
    .of_keys (n := 961) [chars "status", chars "checks"] rfl (by decide) (by decide)
      (by simp [Wordy.text, hchecks])
  exact hcensus.carried rfl

structure Gets (r : Request) (path : Text) : Prop where
  method : r.method = .get
  path : r.target.path = path

/-- The request is answered with a value, and all that happens is what is noted. -/
def Tells (a : App) (time : Timestamp) (r : Request) (noted : List Log.Record) (status : Int)
    (v : Value) : Prop :=
  ∃ body, Carries body v ∧
    a.respond time r = (a.emit noted, .ok ⟨status, a.originHeaders r, body⟩)

/-- A ready interface shows the tasks `infos`, whichever way it is asked. -/
structure Views (a : App) (time : Timestamp) (infos : List TaskInfo) : Prop where
  listing : ∀ {r}, Gets r Route.tasksPath →
    Tells a time r [] 200 (.list (infos.map fun i => .record
      [(chars "name", .text i.name), (chars "description", .text i.description)]))
  described : ∀ {r i}, i ∈ infos → IsSegment i.name → Gets r (Route.taskPath ++ i.name) →
    Tells a time r [] 200 (.record
      [(chars "name", .text i.name), (chars "description", .text i.description)])
  absent : ∀ {r name}, name ∉ infos.map TaskInfo.name → IsSegment name → Sendable name →
    Gets r (Route.taskPath ++ name) →
    Tells a time r [problemRecord (.taskNotFound name) ⟨time, some name, none, .null⟩
      r.target.loggedPath] 404 (.record [(chars "error", .record [
        (chars "code", .text (chars "TASK_NOT_FOUND")),
        (chars "message", .text (chars "Task '" ++ name ++ chars "' does not exist")),
        (chars "category", .text (chars "resource_not_found")),
        (chars "severity", .text (chars "error")), (chars "timestamp", .text time.write),
        (chars "context",
          .record [(chars "task_name", .text name), (chars "invoke_target", .null)])])])
  unready : ∀ {r}, infos = [] → Gets r Route.readyPath →
    Tells a time r [] 503 unreadiness
  /-- A count with more digits than texts may have cannot be sent. -/
  ready : ∀ {r}, infos ≠ [] → infos.length < 10 ^ integerDigitLimit → Gets r Route.readyPath →
    Tells a time r [] 200 (census infos.length)
  readiness : ∀ {r answered}, Gets r Route.readyPath → (a.respond time r).2 = .ok answered →
    (answered.status = 503 ↔ infos = [])
  names : Dispatch.taskNames a.world = infos.map TaskInfo.name
  unknown : ∀ {target}, Invocation.Callable target [] →
    ((∃ w o, Dispatch.execute a.policy target a.world = (w, .outcome o) ∧ o.state = .notFound) ↔
      target ∉ infos.map TaskInfo.name)

section
variable {a : App} (ha : a.access = .ready) (time : Timestamp) {r : Request}
include ha

theorem respond_reading {e : Endpoint} (look : Registry Handler → Result)
    (he : ∀ b, a.runEndpoint e b = a.reading look) {path : Text} (hr : Gets r path)
    (hroute : Route.decide .get path = .answer e) :
    a.respond time r =
      conclude time r.target.loggedPath (a.originHeaders r) (a, look a.world.registry) := by
  have hhead : r.method.isHead = false := by
    rw [hr.method]
    rfl
  rw [respond_endpoint a time (by rwa [hr.method, hr.path]) hhead, he, reading_of_ready ha]

theorem respond_tasks (hr : Gets r Route.tasksPath) : a.respond time r =
    conclude time r.target.loggedPath (a.originHeaders r) (a, listTasks a.world.registry) :=
  respond_reading ha time listTasks (fun _ => rfl) hr rfl

theorem respond_task {name : Text} (hname : IsSegment name)
    (hr : Gets r (Route.taskPath ++ name)) : a.respond time r =
    conclude time r.target.loggedPath (a.originHeaders r) (a, describeTask a.world.registry name) :=
  respond_reading ha time (describeTask · name) (fun _ => rfl) hr (Route.decide_task hname)

theorem respond_ready (hr : Gets r Route.readyPath) : a.respond time r =
    conclude time r.target.loggedPath (a.originHeaders r) (a, readiness a.world.registry.size) :=
  respond_reading ha time (fun registry => readiness registry.size) (fun _ => rfl) hr rfl

end

theorem tells_reply {a : App} {time : Timestamp} {r : Request} {status : Int} {v : Value}
    (h : a.respond time r =
      conclude time r.target.loggedPath (a.originHeaders r) (a, .reply status v))
    (hv : ∃ body, Carries body v) : Tells a time r [] status v := by
  obtain ⟨body, hbody⟩ := hv
  refine ⟨body, hbody, ?_⟩
  rw [h]
  simp only [conclude, answer, hbody.sent, rendered]

theorem tells_described {a : App} {time : Timestamp} {r : Request} {v : Value}
    (h : a.respond time r =
      conclude time r.target.loggedPath (a.originHeaders r) (a, .described v))
    (hw : Wordy Body.nestingLimit v) (hv : unencodableIn? v = none) : Tells a time r [] 200 v := by
  obtain ⟨body, hdescribed, hbody⟩ := hw.described hv
  refine ⟨body, hbody, ?_⟩
  rw [h]
  simp only [conclude, answer, hdescribed, rendered]

theorem tells_absence {a : App} {time : Timestamp} (htime : Sendable time.write) {r : Request}
    {name : Text} (hname : Sendable name)
    (h : a.respond time r = conclude time r.target.loggedPath (a.originHeaders r)
      (a, .problem (.taskNotFound name))) :
    Tells a time r [problemRecord (.taskNotFound name) ⟨time, some name, none, .null⟩
      r.target.loggedPath] 404 (absenceObject time.write name) := by
  obtain ⟨body, hbody⟩ := absence_carried htime hname
  have hshown : content ((Problem.taskNotFound name).envelope
      ((Problem.taskNotFound name).note (.fresh time))) = .ok body := hbody.sent
  refine ⟨body, hbody, ?_⟩
  rw [h]
  simp only [conclude, answer, hshown, rendered]
  rfl

theorem answer_reply_status {time : Timestamp} {path : Text} {headers : List (Text × Text)}
    {status : Int} {v : Value} {answered : Response}
    (h : (answer time path headers (.reply status v)).2 = .ok answered) :
    answered.status = status ∨ answered.status = 500 := by
  rw [answer] at h
  cases hv : content v with
  | ok body =>
    rw [hv] at h
    cases h
    exact .inl rfl
  | error f =>
    rw [hv, rendered, unhandled] at h
    cases hbody : content (Problem.internalFailure.envelope (.fresh time)) with
    | ok body =>
      rw [hbody] at h
      cases h
      exact .inr rfl
    | error f =>
      rw [hbody] at h
      cases h

section
variable {a : App} (ha : a.access = .ready) (time : Timestamp) {r : Request}
  (hr : Gets r Route.readyPath)
include ha hr

theorem tells_unready (hsize : a.world.registry.size = 0) : Tells a time r [] 503 unreadiness := by
  have hrespond := respond_ready ha time hr
  rw [App.readiness, if_pos hsize] at hrespond
  exact tells_reply hrespond unreadiness_carried

theorem tells_census (hsize : a.world.registry.size ≠ 0)
    (hlt : a.world.registry.size < 10 ^ integerDigitLimit) :
    Tells a time r [] 200 (census a.world.registry.size) := by
  have hrespond := respond_ready ha time hr
  rw [App.readiness, if_neg hsize] at hrespond
  exact tells_reply hrespond (census_carried hlt)

theorem status_ready {answered : Response} (hanswered : (a.respond time r).2 = .ok answered) :
    answered.status = 503 ↔ a.world.registry.size = 0 := by
  by_cases hsize : a.world.registry.size = 0
  · obtain ⟨body, -, hrespond⟩ := tells_unready ha time hr hsize
    rw [hrespond] at hanswered
    obtain rfl := Except.ok.inj hanswered
    exact iff_of_true rfl hsize
  · rw [respond_ready ha time hr, App.readiness, if_neg hsize] at hanswered
    apply iff_of_false _ hsize
    rcases answer_reply_status hanswered with hstatus | hstatus
    · rw [hstatus]
      decide
    · rw [hstatus]
      decide

end

section
variable {r : Registry Handler} {h : List (Descriptor Handler)} (hr : Registry.Records h r)
include hr

theorem listTasks_records :
    listTasks r = .described (.list ((Registry.listed h).map taskObject)) := by
  rw [listTasks, hr.tasks_eq, Registry.listed, List.map_map]
  rfl

theorem describeTask_listed {i : TaskInfo} (hi : i ∈ Registry.listed h) :
    describeTask r i.name = .described (taskObject i) := by
  obtain ⟨t, ht, hname, hdescription⟩ := Registry.last?_listed hi
  rw [← hr.lookup] at ht
  simp only [describeTask, ht]
  rw [taskObject, ← hname, ← hdescription]
  rfl

theorem describeTask_unlisted {name : Text} (hname : name ∉ (Registry.listed h).map TaskInfo.name) :
    describeTask r name = .problem (.taskNotFound name) := by
  rw [← Registry.last?_unlisted, ← hr.lookup] at hname
  simp only [describeTask, hname]

theorem size_records : r.size = (Registry.listed h).length := by
  rw [Registry.size, hr.tasks_eq, Registry.listed, List.length_map]

theorem size_eq_zero_iff : r.size = 0 ↔ Registry.listed h = [] := by
  rw [size_records hr, List.length_eq_zero_iff]

end

theorem views_of_records {a : App} (ha : a.access = .ready) {h : List (Descriptor Handler)}
    (hrecords : Registry.Records h a.world.registry)
    (hclear : ∀ t ∈ h, Sendable t.name ∧ Sendable t.description) {time : Timestamp}
    (htime : Sendable time.write) : Views a time (Registry.listed h) := by
  have hinfos := Registry.listed_clear hclear
  have hempty := size_eq_zero_iff hrecords
  constructor
  case listing =>
    intro r hr
    have hrespond := respond_tasks ha time hr
    rw [listTasks_records hrecords] at hrespond
    exact tells_described hrespond (tasks_wordy _) (tasks_clear hinfos)
  case described =>
    intro r i hi hname hr
    have hrespond := respond_task ha time hname hr
    rw [describeTask_listed hrecords hi] at hrespond
    exact tells_described hrespond (task_wordy (n := 961) i) (task_clear (hinfos i hi))
  case absent =>
    intro r name hi hname hsendable hr
    have hrespond := respond_task ha time hname hr
    rw [describeTask_unlisted hrecords hi] at hrespond
    exact tells_absence htime hsendable hrespond
  case unready =>
    intro r hnil hr
    exact tells_unready ha time hr (hempty.mpr hnil)
  case ready =>
    intro r hne hlt hr
    rw [← size_records hrecords] at hlt ⊢
    exact tells_census ha time hr (mt hempty.mp hne) hlt
  case readiness =>
    intro r answered hr hanswered
    rw [← hempty]
    exact status_ready ha time hr hanswered
  case names =>
    rw [Dispatch.taskNames, hrecords.names, Registry.names_listed]
  case unknown =>
    intro target htarget
    rw [← Registry.last?_unlisted, ← hrecords.lookup]
    exact Dispatch.notFound_iff (Invocation.parse?_bare htarget) (.decoded rfl)

/-- After registrations without surrogates a ready interface lists every name once, in the order
of first registrations and with the description that was registered last, and whatever else
it is asked agrees with its list. -/
theorem views_agree {a : App} (ha : a.access = .ready) {h : List (Descriptor Handler)}
    (hregistry : a.world.registry = (Registry.build h).1)
    (hclear : ∀ t ∈ h, Sendable t.name ∧ Sendable t.description) {time : Timestamp}
    (htime : Sendable time.write) :
    (Registry.listed h).map TaskInfo.name = Registry.firsts h ∧
      (∀ i ∈ Registry.listed h,
        ∃ t, Registry.last? h i.name = some t ∧ t.name = i.name ∧ t.description = i.description) ∧
      Views a time (Registry.listed h) := by
  have hrecords : Registry.Records h a.world.registry := by
    rw [hregistry]
    exact (Registry.Book.keeps_ofTable h).records
  exact ⟨Registry.names_listed h, fun _ => Registry.last?_listed,
    views_of_records ha hrecords hclear htime⟩

def relisted : List (Descriptor Handler) :=
  [⟨chars "run", chars "first", fun _ => .complete .null⟩,
    ⟨chars "b", [], fun _ => .complete .null⟩,
    ⟨chars "run", chars "second", fun _ => .complete .null⟩]

def relistedApp : App := ⟨.ready, .lenient, .ofRegistry (Registry.build relisted).1, .ok 500, []⟩

theorem views_agree_relisted :
    Registry.listed relisted = [⟨chars "run", chars "second"⟩, ⟨chars "b", []⟩] ∧
      Views relistedApp (.reading []) (Registry.listed relisted) ∧
      ∀ r, Gets r Route.runPath →
        Tells relistedApp (.reading []) r [] 200 (.record
          [(chars "name", .text (chars "run")), (chars "description", .text (chars "second"))]) := by
  have hlisted : Registry.listed relisted =
      [⟨chars "run", chars "second"⟩, ⟨chars "b", []⟩] := by rfl
  have hclear : ∀ t ∈ relisted, Sendable t.name ∧ Sendable t.description := by
    intro t ht
    simp only [relisted, List.mem_cons, List.not_mem_nil, or_false] at ht
    rcases ht with rfl | rfl | rfl
    · exact ⟨show Sendable (chars "run") by decide, show Sendable (chars "first") by decide⟩
    · exact ⟨show Sendable (chars "b") by decide, show Sendable [] by decide⟩
    · exact ⟨show Sendable (chars "run") by decide, show Sendable (chars "second") by decide⟩
  have htime : Sendable (Timestamp.reading []).write := by decide
  obtain ⟨-, -, hviews⟩ := views_agree (a := relistedApp) rfl rfl hclear htime
  refine ⟨hlisted, hviews, fun r hr => ?_⟩
  have hmem : (⟨chars "run", chars "second"⟩ : TaskInfo) ∈ Registry.listed relisted := by
    rw [hlisted]
    exact List.mem_cons_self
  have hsegment : IsSegment (chars "run") := ⟨by decide, by decide⟩
  exact hviews.described hmem hsegment hr

end App

end Http

end Callboard
