import Noobs.Lib.SortedMap
import Noobs.Lib.Extent
import Noobs.Spec.Partition
import Noobs.Spec.Plan
import Noobs.Proof.Check
import Noobs.Proof.Layout
import Noobs.Proof.Budget
import Noobs.Lib.Lines
import Noobs.Proof.Table
import Noobs.Spec.Web
import Noobs.Proof.Receive
import Noobs.Proof.Delivery
import Noobs.Lib.Fuel
import Noobs.Proof.Robust
import Noobs.Lib.Prog
import Noobs.Spec.System
import Noobs.Spec.Boot
import Noobs.Spec.Install
import Noobs.Proof.Follow
import Noobs.Proof.Wrap
import Noobs.Proof.Write
import Noobs.Proof.Report
import Noobs.Proof.Boot
import Noobs.Proof.Stranded
import Noobs.Spec.Server
import Noobs.Proof.Respond
import Noobs.Proof.Crash
import Noobs.Spec.Client
import Noobs.Proof.RoundTrip
import Noobs.Proof.Download
import Noobs.Spec.PreSetup
import Noobs.Proof.Restart
import Noobs.Spec.Parse
import Noobs.Proof.Parse
import Noobs.Proof.Tarballs
import Noobs.Proof.Gaps
import Noobs.Proof.Exact
import Noobs.Spec.Scalar
import Noobs.Proof.Metadata
import Noobs.Proof.Scratch
import Noobs.Spec.Process
import Noobs.Proof.Format
import Noobs.Proof.Labels
import Noobs.Lib.Words
import Noobs.Proof.CmdLine
import Noobs.Spec.Menu
import Noobs.Proof.Menu
import Noobs.Proof.Get
import Noobs.Proof.FirstBoot
import Noobs.Lib.Simulation
import Noobs.Spec.Listen
import Noobs.Proof.Listen
import Noobs.Spec.Ideal
import Noobs.Proof.Ideal
import Noobs.Proof.Healthy
import Noobs.Lib.Canvas
import Noobs.Proof.QrSymbol
import Noobs.Proof.QrText
import Noobs.Proof.QrVersion
import Noobs.Lib.Frames
import Noobs.Proof.Reply
import Noobs.Spec.Session
import Noobs.Proof.Session
