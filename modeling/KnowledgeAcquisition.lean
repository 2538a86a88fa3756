import KnowledgeAcquisition.HFT.OrderBook
import KnowledgeAcquisition.HFT.PriceTime
import KnowledgeAcquisition.Library.Links
import KnowledgeAcquisition.Library.Loop
import KnowledgeAcquisition.Library.OrderedMap
import KnowledgeAcquisition.Proof.HFT.Runs
import KnowledgeAcquisition.Library.Transducer
import KnowledgeAcquisition.RoCommLink.Packet
import KnowledgeAcquisition.RoCommLink.Parser
import KnowledgeAcquisition.Proof.RoCommLink.Frame
import KnowledgeAcquisition.RoCommLink.Node
import KnowledgeAcquisition.Proof.RoCommLink.Processing
import KnowledgeAcquisition.Proof.RoCommLink.Gateway
import KnowledgeAcquisition.RoCommLink.Workers
import KnowledgeAcquisition.Proof.RoCommLink.Workers
import KnowledgeAcquisition.RoCommLink.Session
import KnowledgeAcquisition.Proof.RoCommLink.Session
import KnowledgeAcquisition.Sfd.Registry
import KnowledgeAcquisition.Proof.Sfd.Registry
import KnowledgeAcquisition.Library.Tally
import KnowledgeAcquisition.Proof.Sfd.Concurrent
import KnowledgeAcquisition.Sfd.Shared
import KnowledgeAcquisition.Proof.Sfd.Shared
import KnowledgeAcquisition.Proof.Sfd.SwitchGuard
import KnowledgeAcquisition.Ipc.Header
import KnowledgeAcquisition.Library.Ring
import KnowledgeAcquisition.Proof.Ipc.Header
import KnowledgeAcquisition.Ipc.Sender
import KnowledgeAcquisition.Proof.Ipc.Sender
import KnowledgeAcquisition.Ipc.Receiver
import KnowledgeAcquisition.Proof.Ipc.Receiver
import KnowledgeAcquisition.Ipc.PipeServer
import KnowledgeAcquisition.Proof.Ipc.Registry
import KnowledgeAcquisition.Ipc.PipeClient
import KnowledgeAcquisition.Proof.Ipc.PipeClient
import KnowledgeAcquisition.Compress.Qoi
import KnowledgeAcquisition.Proof.Compress.Qoi
import KnowledgeAcquisition.Proof.Compress.QoiImages
import KnowledgeAcquisition.Compress.Huffman
import KnowledgeAcquisition.Library.CodeTree
import KnowledgeAcquisition.Proof.Compress.HuffmanTree
import KnowledgeAcquisition.Library.Bits
import KnowledgeAcquisition.Proof.Compress.HuffmanFlat
import KnowledgeAcquisition.Proof.Compress.HuffmanCodec
import KnowledgeAcquisition.FriendlyCache.LeastRecentlyUsed
import KnowledgeAcquisition.Proof.FriendlyCache.Cache
import KnowledgeAcquisition.Proof.RoCommLink.TaskQueue
import KnowledgeAcquisition.Proof.RoCommLink.Tracker
import KnowledgeAcquisition.Proof.RoCommLink.Promises
import KnowledgeAcquisition.MachineLearning.Tensor2D
import KnowledgeAcquisition.Proof.MachineLearning.Matmul
import KnowledgeAcquisition.Proof.RoCommLink.Bounds
import KnowledgeAcquisition.Proof.RoCommLink.Corruption
import KnowledgeAcquisition.Proof.RoCommLink.Skipping
import KnowledgeAcquisition.Library.Register
import KnowledgeAcquisition.Proof.Ipc.Checksum
import KnowledgeAcquisition.Ipc.PosixPipe
import KnowledgeAcquisition.Proof.Ipc.PosixPipe
import KnowledgeAcquisition.Util.ConstHash
import KnowledgeAcquisition.Proof.Ipc.ClientIds
import KnowledgeAcquisition.Proof.Util.ConstHash
import KnowledgeAcquisition.Proof.Compress.QoiBounds
import KnowledgeAcquisition.Compress.Rle
import KnowledgeAcquisition.Library.RunLength
import KnowledgeAcquisition.Proof.Compress.Rle
import KnowledgeAcquisition.Proof.Ipc.ShortReads
import KnowledgeAcquisition.Proof.HFT.Volumes
import KnowledgeAcquisition.Library.Remainder
import KnowledgeAcquisition.Proof.Ipc.StaticPackets
import KnowledgeAcquisition.Proof.Compress.HuffmanOptimal
import KnowledgeAcquisition.Kernel.AdvBuffer
import KnowledgeAcquisition.Proof.Kernel.AdvBuffer
import KnowledgeAcquisition.Kernel.HwSimulator
import KnowledgeAcquisition.Proof.Kernel.HwSimulator
import KnowledgeAcquisition.MachineLearning.ModelCheckpoint
import KnowledgeAcquisition.Proof.MachineLearning.ModelCheckpoint
import KnowledgeAcquisition.Library.Pairing
import KnowledgeAcquisition.MachineLearning.DenseLayer
import KnowledgeAcquisition.Proof.MachineLearning.DenseLayer
import KnowledgeAcquisition.Library.Accumulation
import KnowledgeAcquisition.Proof.MachineLearning.BiasLoop
import KnowledgeAcquisition.MachineLearning.Tensor4D
import KnowledgeAcquisition.Proof.MachineLearning.Tensor4D
import KnowledgeAcquisition.MachineLearning.Conv2DLayer
import KnowledgeAcquisition.Proof.MachineLearning.Conv2DLayer
import KnowledgeAcquisition.Proof.MachineLearning.Transposition
import KnowledgeAcquisition.MachineLearning.DataLoader
import KnowledgeAcquisition.Proof.MachineLearning.DataLoader
import KnowledgeAcquisition.Math.Fraction
import KnowledgeAcquisition.Proof.Math.Fraction
import KnowledgeAcquisition.Math.Matrix
import KnowledgeAcquisition.Proof.Math.Matrix
import KnowledgeAcquisition.Library.XorLinks
import KnowledgeAcquisition.XorSolutions.LinkList
import KnowledgeAcquisition.Proof.XorSolutions.LinkList
import KnowledgeAcquisition.Library.Base64
import KnowledgeAcquisition.TermImage.KittyGpu
import KnowledgeAcquisition.Proof.TermImage.KittyGpu
import KnowledgeAcquisition.Library.InsertionOrder
import KnowledgeAcquisition.Util.JsonHelper
import KnowledgeAcquisition.Proof.Util.JsonHelper
import KnowledgeAcquisition.Library.Tiff
import KnowledgeAcquisition.Exif.Payload
import KnowledgeAcquisition.Proof.Exif.Payload
import KnowledgeAcquisition.Exif.Segments
import KnowledgeAcquisition.Proof.Exif.Segments
import KnowledgeAcquisition.Library.Lines
import KnowledgeAcquisition.EnglishApps.EnglishChallenge
import KnowledgeAcquisition.Proof.EnglishApps.EnglishChallenge
import KnowledgeAcquisition.Proof.Compress.HuffmanPaths
import KnowledgeAcquisition.Library.Dual
import KnowledgeAcquisition.MachineLearning.Layers
import KnowledgeAcquisition.Proof.MachineLearning.Layers
import KnowledgeAcquisition.Proof.MachineLearning.Backpropagation
import KnowledgeAcquisition.Proof.MachineLearning.Descent
import KnowledgeAcquisition.Proof.MachineLearning.SigmoidLayer
import KnowledgeAcquisition.Proof.MachineLearning.SavedStacks
import KnowledgeAcquisition.Dungeon.Game
import KnowledgeAcquisition.Proof.Dungeon.Invariant
import KnowledgeAcquisition.Proof.Dungeon.Runs
import KnowledgeAcquisition.Proof.Dungeon.Victory
import KnowledgeAcquisition.RoCommLink.Network
import KnowledgeAcquisition.Proof.RoCommLink.Network
import KnowledgeAcquisition.Proof.RoCommLink.Delivery
import KnowledgeAcquisition.Proof.RoCommLink.Storm
import KnowledgeAcquisition.Proof.HFT.Markets
import KnowledgeAcquisition.Robot.Motion
import KnowledgeAcquisition.Proof.Robot.Motion
import KnowledgeAcquisition.Library.TwoLink
import KnowledgeAcquisition.Robot.ArmRobot
import KnowledgeAcquisition.Proof.Robot.ArmRobot
import KnowledgeAcquisition.Robot.GCodeExecutor
import KnowledgeAcquisition.Proof.Robot.Works
import KnowledgeAcquisition.Proof.Robot.Plane
import KnowledgeAcquisition.Proof.Robot.Lines
import KnowledgeAcquisition.Proof.FriendlyCache.Capacity
import KnowledgeAcquisition.MachineLearning.Training
import KnowledgeAcquisition.MachineLearning.Vision
import KnowledgeAcquisition.Proof.MachineLearning.Loss
import KnowledgeAcquisition.Proof.MachineLearning.Vision
import KnowledgeAcquisition.MachineLearning.AdamOptimizer
import KnowledgeAcquisition.Proof.MachineLearning.AdamOptimizer
import KnowledgeAcquisition.Proof.MachineLearning.Training
