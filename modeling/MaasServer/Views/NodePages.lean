import Mathlib.Data.List.Sort

/-!
# The node pages: deleting a node, and what the node page shows

`NodeDelete.get_object` looks the node up with `ADMIN` permission through
`Node.objects.get_node_or_404`, which is not in the excerpt and is a parameter
here (its outcome, `lookup`), and then refuses an allocated node with
`PermissionDenied`.

`NodeView.get_context_data` adds up to three messages and two texts.
`warnUnconfiguredIpAddresses` is the IPv6 check, with `OS_WITH_IPv6_SUPPORT` and
`NODE_BOOT.FASTPATH` (not in the excerpt) as parameters.  The page lists the
node's events newest first, without the debug ones and at most
`number_of_events_shown` of them; `nodeEventList_newest` says that these are the
newest ones.
-/

namespace MaasServer
namespace Views

/-- Modelled from the spec: `NODE_STATUS` (`maasserver.enum`, not in the
excerpt), with the statuses the spec lists. -/
inductive NodeStatus where
  | new | commissioning | failedCommissioning | ready | allocated | deploying | deployed
  | failedDeployment | releasing | broken
  deriving DecidableEq, Repr

/-- A node, with the fields the node pages read. -/
structure Node where
  systemId : String
  status : NodeStatus
  powerType : String
  error : String
  osystem : String
  bootType : String
  deriving DecidableEq, Repr

/-- The exceptions a node page raises: `Http404` and `PermissionDenied`. -/
inductive ViewError where
  | http404 | permissionDenied
  deriving DecidableEq, Repr

/-- `NodeDelete.get_object`; `lookup` is the outcome of
`get_node_or_404(system_id, user, perm=NODE_PERMISSION.ADMIN)`. -/
def nodeDeleteGetObject (lookup : Except ViewError Node) : Except ViewError Node := do
  let node ← lookup
  if node.status = .allocated then .error .permissionDenied else pure node

/-! ## The node page -/

/-- `NODE_BOOT_INFO`. -/
def nodeBootInfo : String :=
  "\nYou can boot this node using an adequately\nconfigured DHCP server.  See\n" ++
    "<a href=\"https://maas.ubuntu.com/docs/nodes.html\"\n" ++
    ">https://maas.ubuntu.com/docs/nodes.html</a> for instructions.\n"

/-- `NO_POWER_SET`. -/
def noPowerSet : String :=
  "\nThis node does not have a power type set and MAAS will be unable to\n" ++
    "control it. Click \x27Edit node\x27 and set one.\n"

/-- `UNCONFIGURED_IPS_NOTICE`, after `dedent`. -/
def unconfiguredIpsNotice : String :=
  "\nAutomatic configuration of IPv6 addresses is currently only supported on\n" ++
    "Ubuntu, using the fast installer.  To activate the IPv6 address(es) shown\n" ++
    "here, configure them in the installed operating system.\n"

/-- The level of a message from `django.contrib.messages`. -/
inductive Level where
  | info | warning | error
  deriving DecidableEq, Repr

/-- `warn_unconfigured_ip_addresses`: no warning for a supported operating system
installed with the fast installer, otherwise a warning exactly when one of the
node's static addresses is IPv6.  `staticIpVersions` are the IP versions of the
node's static addresses. -/
def warnUnconfiguredIpAddresses (osWithIPv6Support : List String) (fastpath : String) (node : Node)
    (staticIpVersions : List Nat) : Bool :=
  if node.osystem ∈ osWithIPv6Support ∧ node.bootType = fastpath then false
  else staticIpVersions.any (· = 6)

/-- The messages `NodeView.get_context_data` adds, in order. -/
def nodeViewMessages (osWithIPv6Support : List String) (fastpath : String) (node : Node)
    (staticIpVersions : List Nat) : List (Level × String) :=
  (if node.status = .commissioning ∨ node.status = .ready then [(.info, nodeBootInfo)] else []) ++
    (if node.powerType = "" then [(.error, noPowerSet)] else []) ++
    (if warnUnconfiguredIpAddresses osWithIPv6Support fastpath node staticIpVersions
      then [(.warning, unconfiguredIpsNotice)] else [])

/-- `context['error_text']` and `context['status_text']`: the node's error text
goes to the first for a failed commissioning and to the second otherwise. -/
def errorAndStatusText (node : Node) : Option String × Option String :=
  (if node.status = .failedCommissioning then some node.error else none,
    if node.status ≠ .failedCommissioning then some node.error else none)

/-! ## The node's events -/

/-- An `Event` row, with the fields the node page reads: its primary key, its
node (`NULL` once the node is deleted, as migration
`0195_event_username_max_length` has it), and the logging level of its type. -/
structure Event where
  id : Nat
  node : Option Nat
  level : Nat
  deriving DecidableEq, Repr

/-- `NodeView.number_of_events_shown`. -/
def numberOfEventsShown : Nat := 5

/-- `logging.DEBUG`. -/
def loggingDebug : Nat := 10

/-- `context['event_list']`: `Event.objects.filter(node=node)
.exclude(type__level=logging.DEBUG).order_by('-id')[:number_of_events_shown]`. -/
def nodeEventList (events : List Event) (n : Nat) : List Event :=
  ((events.filter fun e => e.node = some n ∧ e.level ≠ loggingDebug).mergeSort
    fun a b => b.id ≤ a.id).take numberOfEventsShown

/-- `context['event_count']`: all the node's events, the debug ones included. -/
def nodeEventCount (events : List Event) (n : Nat) : Nat :=
  (events.filter fun e => e.node = some n).length

/-- **The page shows the node's newest events.**  The list holds at most five of
the node's events, none at debug level, newest first; an event of the node that
is not at debug level and not listed is no newer than any listed one, and then
five are listed; the count covers at least the listed ones. -/
theorem nodeEventList_newest (events : List Event) (n : Nat) :
    (nodeEventList events n).length ≤ numberOfEventsShown ∧
      (∀ e ∈ nodeEventList events n, e ∈ events ∧ e.node = some n ∧ e.level ≠ loggingDebug) ∧
      (nodeEventList events n).Pairwise (fun a b => b.id ≤ a.id) ∧
      (∀ e ∈ events, e.node = some n → e.level ≠ loggingDebug → e ∉ nodeEventList events n →
        (nodeEventList events n).length = numberOfEventsShown ∧
          ∀ e' ∈ nodeEventList events n, e.id ≤ e'.id) ∧
      (nodeEventList events n).length ≤ nodeEventCount events n := by
  set shown := events.filter fun e => e.node = some n ∧ e.level ≠ loggingDebug
  set sorted := shown.mergeSort fun a b => b.id ≤ a.id
  have hlist : nodeEventList events n = sorted.take numberOfEventsShown := rfl
  have hperm : sorted.Perm shown := List.mergeSort_perm _ _
  have hsorted' : sorted.Pairwise fun a b => decide (b.id ≤ a.id) :=
    List.sorted_mergeSort (fun a b c hab hbc => by simp only [decide_eq_true_eq] at *; omega)
      (fun a b => by simpa using Nat.le_total b.id a.id) shown
  have hsorted : sorted.Pairwise fun a b => b.id ≤ a.id := hsorted'.imp of_decide_eq_true
  rw [hlist]
  refine ⟨List.length_take_le _ _, fun e he => ?_, hsorted.sublist (List.take_sublist _ _),
    fun e he hn hl hnot => ?_, ?_⟩
  · simpa [shown] using hperm.subset (List.mem_of_mem_take he)
  · have hdrop : e ∈ sorted.drop numberOfEventsShown := by
      have : e ∈ sorted := hperm.symm.subset (List.mem_filter.mpr ⟨he, by simp [hn, hl]⟩)
      rw [← List.take_append_drop numberOfEventsShown sorted, List.mem_append] at this
      exact this.resolve_left hnot
    have hlong : numberOfEventsShown ≤ sorted.length := by
      have := List.length_pos_of_mem hdrop
      rw [List.length_drop] at this
      omega
    exact ⟨List.length_take_of_le hlong, fun e' he' => hsorted.rel_of_mem_take_of_mem_drop he' hdrop⟩
  · calc (sorted.take numberOfEventsShown).length
        ≤ sorted.length := List.length_take_le' _ _
      _ = shown.length := hperm.length_eq
      _ ≤ nodeEventCount events n :=
        (List.monotone_filter_right events fun e h => by simp_all).length_le

end Views
end MaasServer
