import FastLivo.Imu.Undistortion
import FastLivo.Mapper.TimeBase
import FastLivo.Mapper.OdometryTime
import FastLivo.Mapper.NonInterference
import FastLivo.Mapper.RtkUse
import FastLivo.Esikf.RtkMatching
import FastLivo.Esikf.Covariance
import FastLivo.Esikf.Telescoping
import FastLivo.Esikf.Consistency
import FastLivo.Frontend.Covariance
import FastLivo.Frontend.InverseComposition
import FastLivo.Frontend.Transition
import FastLivo.Frontend.PointCovariance
import FastLivo.Frontend.PatchReads
import FastLivo.Frontend.PatchScore
import FastLivo.Frontend.GravityInit
import FastLivo.Backend.Wakeup
import FastLivo.Backend.Pipeline
import FastLivo.Chcnav.Stream
import FastLivo.Livox.Timestamp
import FastLivo.Livox.FormatAgreement
import FastLivo.Timeshare.Matching
import FastLivo.VoxelMap.Lookup
import FastLivo.VoxelMap.Covariances
import FastLivo.VoxelMap.Neighbour
import FastLivo.VoxelMap.PlaneFit
import FastLivo.VisualMap.Invariant
import FastLivo.Esikf.Initialization
import FastLivo.Backend.ScanContext
import FastLivo.Lib.RigidAlignment
import FastLivo.Mapper.RigidAlignment
import FastLivo.Frontend.RoundTrip
import FastLivo.Lib.LookAhead
import FastLivo.Mapper.AlignmentAcceptance
import FastLivo.Mapper.ImuReplay
import FastLivo.Mapper.RtkAssociation
import FastLivo.Chcnav.Crc
import FastLivo.Livox.Bounds
import FastLivo.Livox.Packets
import FastLivo.Livox.PublishGrid
import FastLivo.Livox.OffsetTime
import FastLivo.Backend.Smoothing
import FastLivo.Chcnav.Nmea
import FastLivo.Chcnav.NmeaCheck
import FastLivo.Preprocess.AviaTimes
import FastLivo.Preprocess.ScanOrder
import FastLivo.Preprocess.PlaneGroups
import FastLivo.Preprocess.Bounds
import FastLivo.Livox.Distribution
import FastLivo.Livox.CacheIndex
import FastLivo.Mapper.Publication
import FastLivo.Mapper.PcdSave
import FastLivo.VoxelMap.Sliding
import FastLivo.VoxelMap.ParallelMatching
