import OvnOfctrl.Flow
import OvnOfctrl.Tables
import OvnOfctrl.Desired
import OvnOfctrl.Hmap
import OvnOfctrl.FloodRemove
import OvnOfctrl.Extend
import OvnOfctrl.Messages
import OvnOfctrl.Ofctrl
import OvnOfctrl.StateMachine
import OvnOfctrl.Put
import OvnOfctrl.Step
import OvnOfctrl.CurCfg
import OvnOfctrl.DesiredLinks
import OvnOfctrl.FloodLinks
import OvnOfctrl.InstalledLinks
import OvnOfctrl.TableOps
import OvnOfctrl.Switch
import OvnOfctrl.PutLoops
import OvnOfctrl.Engine
import OvnOfctrl.Reconcile
import OvnOfctrl.Invariants
import OvnOfctrl.SwitchMirror
import OvnOfctrl.Agreement
import OvnOfctrl.AddOrAppend
import OvnOfctrl.Negotiation
import OvnOfctrl.CtZones
import OvnOfctrl.FlowUpdates
import OvnOfctrl.DesiredOps
import OvnOfctrl.PutMods
import OvnOfctrl.FloodClosure
import OvnOfctrl.FloodDepth
import OvnOfctrl.Converged
import OvnOfctrl.Progress
import OvnOfctrl.Reordering
import OvnOfctrl.Propagation
import OvnOfctrl.CtFlush
