-- The group and meter tables that ofctrl.c drives but does not own. Their code,
-- lib/extend-table.c, is not among this repository's files, so they follow the spec's
-- description of the collaborator: desired entries, entries on the switch, and sync.
import OvnOfctrl.Flow

namespace OvnOfctrl

/-- Modelled from the spec: an entry of an extend table (lib/extend-table.h is missing):
the id the switch knows it by, its name, and the uuid that asked for it. -/
structure OvnExtendTableInfo where
  name : String
  table_id : Nat
  lflow_uuid : Uuid
deriving DecidableEq, Repr

/-- Modelled from the spec: an `ovn_extend_table`, its desired entries and the entries
installed on the switch. -/
structure OvnExtendTable where
  desired : List OvnExtendTableInfo
  existing : List OvnExtendTableInfo
deriving DecidableEq, Repr

namespace OvnExtendTable

def empty : OvnExtendTable := ⟨[], []⟩

/-- Modelled from the spec: the entries `EXTEND_TABLE_FOR_EACH_UNINSTALLED` visits, desired
and not installed. -/
def uninstalled (t : OvnExtendTable) : List OvnExtendTableInfo :=
  t.desired.filter (· ∉ t.existing)

/-- Modelled from the spec: the entries `EXTEND_TABLE_FOR_EACH_INSTALLED` visits, installed
and no longer desired. -/
def installedUndesired (t : OvnExtendTable) : List OvnExtendTableInfo :=
  t.existing.filter (· ∉ t.desired)

end OvnExtendTable

/-- Modelled from the spec: `ovn_extend_table_remove_existing` drops an installed entry. -/
def ovn_extend_table_remove_existing (t : OvnExtendTable) (e : OvnExtendTableInfo) :
    OvnExtendTable :=
  { t with existing := t.existing.erase e }

/-- Modelled from the spec: `ovn_extend_table_sync` promotes every desired entry to the
installed set. -/
def ovn_extend_table_sync (t : OvnExtendTable) : OvnExtendTable :=
  { t with existing := t.existing ++ t.uninstalled }

/-- Modelled from the spec: `ovn_extend_table_clear (t, existing)` empties the installed
set, or the desired one. -/
def ovn_extend_table_clear (t : OvnExtendTable) (existing : Bool) : OvnExtendTable :=
  if existing then { t with existing := [] } else { t with desired := [] }

/-- Modelled from the spec: `ovn_extend_table_remove_desired` drops the desired entries
that `lflow_uuid` asked for. -/
def ovn_extend_table_remove_desired (t : OvnExtendTable) (lflow_uuid : Uuid) :
    OvnExtendTable :=
  { t with desired := t.desired.filter (·.lflow_uuid ≠ lflow_uuid) }

end OvnOfctrl
