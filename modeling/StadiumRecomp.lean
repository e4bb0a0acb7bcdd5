import StadiumRecomp.Symbols.Repair
import StadiumRecomp.Mips.CallClosure
import StadiumRecomp.Mips.KnownBodies
import StadiumRecomp.Mips.GapSeed
import StadiumRecomp.Launcher.RoundTrip
import StadiumRecomp.Launcher.Agreement
import StadiumRecomp.Captures.Meaning
import StadiumRecomp.Translate.Preserved
import StadiumRecomp.Translate.Reload
import StadiumRecomp.Translate.Sessions
import StadiumRecomp.Translate.Cursor
import StadiumRecomp.Launcher.SaveGate
import StadiumRecomp.Launcher.Gamepads
import StadiumRecomp.Census.Inventory
import StadiumRecomp.Census.Memscan
import StadiumRecomp.Translate.Regions
import StadiumRecomp.Symbols.Fixpoint
import StadiumRecomp.Census.PcSet
import StadiumRecomp.Hook.Gate
import StadiumRecomp.Hook.OwnOutput
import StadiumRecomp.Hook.Reentry
import StadiumRecomp.Hook.Budget
import StadiumRecomp.Hook.Checked
import StadiumRecomp.Hook.Findings
import StadiumRecomp.Hook.Footprint
import StadiumRecomp.Hook.Fit
import StadiumRecomp.Yay0.RoundTrip
import StadiumRecomp.Yay0.BackRefs
import StadiumRecomp.Saves.BoxChecksums
import StadiumRecomp.Audio.Alignment
import StadiumRecomp.Debug.Framing
import StadiumRecomp.Debug.Payload
import StadiumRecomp.Debug.Input
import StadiumRecomp.Libultra.Match
import StadiumRecomp.Rsp.Commands
import StadiumRecomp.Hook.Candidates
import StadiumRecomp.Trace.NameRing
import StadiumRecomp.Trace.ScriptRing
import StadiumRecomp.Input.Routing
import StadiumRecomp.Font.Render
import StadiumRecomp.Launcher.Charmap
import StadiumRecomp.Symbols.Rescan
import StadiumRecomp.Debug.Drive
